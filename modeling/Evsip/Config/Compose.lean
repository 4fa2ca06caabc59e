import Evsip.Config.Calls
import Evsip.Config.Settings

/-! Files read one after the other, and files that set the same. A file acts on the options by the
last value it has for each of them. -/

namespace Evsip.Config
open CLib

def afterFile (content : List UInt8) (beyond : Nat → Nat → UInt8) (c : ConfigCtx) : ConfigCtx :=
  (configStartParse (fun _ => some content) beyond c).2.config

/-- What a file makes of an option, if it sets it. -/
def settingOf (content : List UInt8) (slot : Slot) : Option (List UInt8 ⊕ Int) :=
  (lastValue (slotName slot) (entries (some content))).map slot.read

/-- Neither of the files sets an option of the other to another value. -/
def Compatible (a b : List UInt8) : Prop :=
  ∀ slot, settingOf a slot = none ∨ settingOf b slot = none ∨ settingOf a slot = settingOf b slot

variable {c : ConfigCtx} {a b : List UInt8} {beyond beyond' beyond'' : Nat → Nat → UInt8}
  {st : Parser} {slot : Slot}

theorem parseLine_filePath {text : List UInt8} {beyond : Nat → UInt8} (h : StrAt st.line 0 text) :
    ((parseLine beyond).run st).2.config.filePath = st.config.filePath := by
  obtain ⟨hnone, hsome⟩ := parseLine_run beyond h
  rcases he : entryOf (stripStart (stripEnd text)) with _ | ⟨name, value⟩
  · rw [hnone he]
  · obtain ⟨st', n, v, hname, hvalue, hconfig, hrun⟩ := hsome name value he
    rw [hrun, configKeyvalHandler_run hname hvalue, ← hconfig]
    rcases slotOf name with _ | o | o <;> rfl

theorem parseLoop_filePath (n : Nat) (chunks : List (List UInt8)) :
    ((parseLoop beyond n chunks).run st).2.config.filePath = st.config.filePath := by
  induction chunks generalizing st n with
  | nil => rfl
  | cons chunk chunks ih =>
    rw [parseLoop, StateT.run_bind, fill_run, pure_bind, StateT.run_bind]
    exact (ih (n + 1)).trans (parseLine_filePath filled_strAt)

theorem afterFile_cases (c : ConfigCtx) :
    (∀ a beyond, afterFile a beyond c = c) ∨ ∀ a, Opens (fun _ => some a) c a := by
  rcases hpath : c.filePath with _ | path
  · left
    intro a beyond
    rw [afterFile, configStartParse, hpath]
  · by_cases hne : path.bytes = []
    · left
      intro a beyond
      rw [afterFile, configStartParse, hpath]
      dsimp only
      rw [if_pos hne]
    · exact .inr fun a => ⟨path, hpath, hne, rfl⟩

theorem afterFile_filePath : (afterFile a beyond c).filePath = c.filePath := by
  rcases afterFile_cases c with h | h
  · rw [h]
  · rw [afterFile, configStartParse_run (h a)]
    exact parseLoop_filePath 1 _

theorem opens_after (h : ∀ a, Opens (fun _ => some a) c a) (a b : List UInt8) :
    Opens (fun _ => some b) (afterFile a beyond c) b := by
  obtain ⟨path, hpath, hne, -⟩ := h a
  exact ⟨path, afterFile_filePath.trans hpath, hne, rfl⟩

theorem afterFile_get (h : Opens (fun _ => some a) c a) :
    (afterFile a beyond c).options.get slot = (settingOf a slot).getD (c.options.get slot) := by
  rw [afterFile, opens_options h, foldl_set_get, settingOf]

theorem afterFile_afterFile_get (h : ∀ a, Opens (fun _ => some a) c a) :
    (afterFile b beyond' (afterFile a beyond c)).options.get slot =
      (settingOf b slot).getD ((settingOf a slot).getD (c.options.get slot)) := by
  rw [afterFile_get (opens_after h a b), afterFile_get (h a)]

theorem entries_append (h : a = [] ∨ a.getLast? = some 10) :
    entries (some (a ++ b)) = entries (some a) ++ entries (some b) := by
  rcases h with rfl | h
  · rfl
  · obtain ⟨body, rfl⟩ := List.getLast?_eq_some_iff.1 h
    rw [entries, entries, entries, List.append_assoc, List.singleton_append, fgetsChunks_append,
      List.filterMap_append]

/-- A file behind another one, which ends its last line, does what it does when it is read after
the other. -/
theorem afterFile_append (h : a = [] ∨ a.getLast? = some 10) :
    (afterFile (a ++ b) beyond c).options =
      (afterFile b beyond' (afterFile a beyond'' c)).options := by
  rcases afterFile_cases c with hc | hc
  · rw [hc, hc, hc]
  · rw [afterFile, opens_options (hc _), entries_append h, List.foldl_append,
      ← opens_options (hc a) beyond'']
    exact (opens_options (opens_after hc a b) beyond').symm

theorem afterFile_append_port :
    let c := (configInit .zero none).2
    (afterFile (bytes "local_port=1\n" ++ bytes "user_agent=x") (fun _ _ => 0) c).options =
      (afterFile (bytes "user_agent=x") (fun _ _ => 1)
        (afterFile (bytes "local_port=1\n") (fun _ _ => 0) c)).options :=
  afterFile_append (.inr (by decide))

theorem opens_default (a : List UInt8) : Opens (fun _ => some a) (configInit .zero none).2 a :=
  opens_init .zero none a

/-- What a file did once it does not do again, and two files can be read in either order exactly
when they do not disagree on an option. -/
theorem afterFile_order (a b : List UInt8) (beyond beyond' : Nat → Nat → UInt8) :
    (∀ c, (afterFile a beyond (afterFile a beyond' c)).options = (afterFile a beyond' c).options) ∧
    ((∀ c, (afterFile b beyond' (afterFile a beyond c)).options =
      (afterFile a beyond (afterFile b beyond' c)).options) ↔ Compatible a b) := by
  refine ⟨fun c => ?_, fun h slot => ?_, fun h c => ?_⟩
  · rcases afterFile_cases c with hc | hc
    · rw [hc, hc]
    · refine get_injective fun slot => ?_
      rw [afterFile_afterFile_get hc, afterFile_get (hc a)]
      cases settingOf a slot <;> rfl
  · have hget := congrArg (Options.get · slot) (h (configInit .zero none).2)
    simp only [afterFile_afterFile_get opens_default] at hget
    rcases ha : settingOf a slot with _ | x
    · exact .inl rfl
    rcases hb : settingOf b slot with _ | y
    · exact .inr (.inl rfl)
    · rw [ha, hb] at hget
      exact .inr (.inr (congrArg some hget.symm))
  · rcases afterFile_cases c with hc | hc
    · rw [hc, hc, hc]
    · refine get_injective fun slot => ?_
      rw [afterFile_afterFile_get hc, afterFile_afterFile_get hc]
      rcases h slot with ha | hb | hab
      · rw [ha, Option.getD_none, Option.getD_none]
      · rw [hb, Option.getD_none, Option.getD_none]
      · rw [hab]

theorem getD_get_injective (slot : Slot) {x y : Option (List UInt8 ⊕ Int)}
    (h : ∀ c : ConfigCtx, c.filePath = some defFile →
      x.getD (c.options.get slot) = y.getD (c.options.get slot)) : x = y := by
  rcases x with _ | x
  · rcases y with _ | y
    · rfl
    · obtain ⟨c, hc, hne⟩ := exists_get_ne slot y
      exact absurd (h c hc) hne
  · obtain ⟨c, hc, hne⟩ := exists_get_ne slot x
    rcases y with _ | y
    · exact absurd (h c hc).symm hne
    · exact congrArg some (h c hc)

/-- Two files do the same to every configuration exactly when they have the same setting for each
option. -/
theorem files_agree_iff (a b : List UInt8) (beyond beyond' : Nat → Nat → UInt8) :
    (∀ c, (afterFile a beyond c).options = (afterFile b beyond' c).options) ↔
      ∀ slot, settingOf a slot = settingOf b slot := by
  constructor
  · intro h slot
    refine getD_get_injective slot fun c hc => ?_
    have hopens : ∀ a, Opens (fun _ => some a) c a := fun a => ⟨defFile, hc, by decide, rfl⟩
    rw [← afterFile_get (hopens a), ← afterFile_get (hopens b), h]
  · intro h c
    rcases afterFile_cases c with hc | hc
    · rw [hc, hc]
    · refine get_injective fun slot => ?_
      rw [afterFile_get (hc a), afterFile_get (hc b), h]

end Evsip.Config
