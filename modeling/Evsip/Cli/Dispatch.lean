import Evsip.Cli.ListEditor
import Evsip.Cmdlst.Roster

/-! Which command a line runs. The lookup takes the first command whose name begins the line. -/

namespace Evsip.Cli
open CLib Cmdlst Registry Transition

def Calls (line name : List UInt8) : Prop :=
  line = name ∨ ∃ x rest, isspace x ∧ line = name ++ x :: rest

def nameOf (r : Registry) (p : CmdPtr) : List UInt8 := (r.cmds p).cmd.bytes

/-- Distinct names without white space. -/
structure Names (r : Registry) : Prop where
  distinct : ∀ p ∈ r.items, ∀ q ∈ r.items, nameOf r p = nameOf r q → p = q
  noSpace : ∀ p ∈ r.items, ∀ x ∈ nameOf r p, isspace x = false

/-- From `s` to `t` the command is executed, and its callback called. -/
def Runs (s t : Ctx) (p : CmdPtr) : Prop :=
  t.commands = [.execute (some p), .lookup s.text] ++ s.commands ∧
    ∃ f, (s.reg.cmds p).execF = some f ∧
      t.reg.trace = .exec p f (s.reg.cmds p).execArg :: s.reg.trace

def Refuses (s t : Ctx) : Prop :=
  t.commands = [.notFound s.text, .lookup s.text] ++ s.commands ∧ t.reg.trace = s.reg.trace

/-- The line runs the command it calls, and no other. -/
def Exact (r : Registry) (line : List UInt8) (s t : Ctx) : Prop :=
  (∀ p ∈ r.items, Runs s t p ↔ Calls line (nameOf r p)) ∧
    ((∀ p ∈ r.items, ¬ Calls line (nameOf r p)) → Refuses s t)

/-- The loop of the lookup gets to the command the line calls, and a command the line does not call
but begins with comes after it. -/
def Clear (r : Registry) (line : List UInt8) : Prop :=
  (∀ (i : Nat) p, r.items[i]? = some p → Calls line (nameOf r p) → i < reach r) ∧
    ∀ i < reach r, ∀ p, r.items[i]? = some p → nameOf r p <+: line → ¬ Calls line (nameOf r p) →
      ∃ j < i, ∃ q, r.items[j]? = some q ∧ Calls line (nameOf r q)

variable {s t : Ctx} {a : ListEditor} {i : Input} {is : List Input} {r r' : Registry}
  {line name name' : List UInt8} {p q : CmdPtr} {text : CString}

/-! Names and lines -/

theorem Calls.prefix (h : Calls line name) : name <+: line := by
  rcases h with rfl | ⟨x, rest, -, rfl⟩
  · exact List.prefix_rfl
  · exact List.prefix_append _ _

theorem Calls.takeWhile_eq (h : Calls line name) (hs : ∀ x ∈ name, isspace x = false) :
    line.takeWhile (fun x => !isspace x) = name := by
  have hall : ∀ x ∈ name, (!isspace x) = true := fun x hx => by rw [hs x hx]; rfl
  rcases h with rfl | ⟨x, rest, hx, rfl⟩
  · exact List.takeWhile_eq_self_iff.2 hall
  · rw [List.takeWhile_append_of_pos hall]
    simp [hx]

theorem Names.unique (hn : Names r) (hp : p ∈ r.items) (hq : q ∈ r.items)
    (hcp : Calls line (nameOf r p)) (hcq : Calls line (nameOf r q)) : p = q := by
  have hword := hcp.takeWhile_eq (hn.noSpace p hp)
  exact hn.distinct p hp q hq (hword.symm.trans (hcq.takeWhile_eq (hn.noSpace q hq)))

theorem prefix_ofBytes (h : 0 ∉ name) : name <+: (CString.ofBytes line).bytes ↔ name <+: line := by
  refine ⟨fun hp => hp.trans (List.takeWhile_prefix _), ?_⟩
  rintro ⟨rest, rfl⟩
  have hall : ∀ x ∈ name, decide (x ≠ 0) = true := fun x hx =>
    decide_eq_true (ne_of_mem_of_not_mem hx h)
  unfold CString.ofBytes
  dsimp only
  rw [List.takeWhile_append_of_pos hall]
  exact List.prefix_append _ _

/-! What a newline does -/

theorem lineCall_none (h : Roster r) (hs : r.scan text 0 (r.items.take (reach r)) = none) :
    lineCall text r = ([.notFound text, .lookup text], r) := by
  unfold lineCall found
  rw [h.find, hs]
  rfl

theorem lineCall_some (h : Roster r) {j : Nat}
    (hs : r.scan text 0 (r.items.take (reach r)) = some (p, j)) : ∃ f,
    (r.cmds p).execF = some f ∧ lineCall text r = ([.execute (some p), .lookup text],
      (r.setCmd p (.position j)).record (.exec p f (r.cmds p).execArg)) := by
  have hp : p ∈ r.items := List.mem_of_mem_take (scan_mem hs)
  obtain ⟨f, hf⟩ := Option.ne_none_iff_exists'.1 (h.callback p hp)
  refine ⟨f, hf, ?_⟩
  have hkept : Roster (r.setCmd p (.position j)) := (Kept.position j).roster h
  have hf' : ((r.setCmd p (.position j)).cmds p).execF = some f := by simpa [Cmd.position] using hf
  unfold lineCall found
  rw [h.find, hs]
  unfold execution
  dsimp only
  rw [cliCmdExecute_run hkept.inv (hkept.alive p hp) hf']
  simp [Cmd.position]

theorem lineCall_kept (h : Roster r) : Kept r (lineCall text r).2 := by
  rcases hs : r.scan text 0 (r.items.take (reach r)) with _ | ⟨p, j⟩
  · rw [lineCall_none h hs]
    exact .refl r
  · obtain ⟨f, -, heq⟩ := lineCall_some h hs
    rw [heq]
    exact (Kept.position j).trans (.record _)

theorem tabCall_kept (h : Roster r) : Kept r (tabCall text r).2 := by
  have hfind : Kept r ((cliCmdFind (some text) true).run r).2 := h.find_kept
  unfold tabCall found
  rw [h.find] at hfind ⊢
  rcases hs : r.scan text 0 (r.items.take (reach r)) with _ | ⟨p, j⟩
  · exact .refl r
  · rw [hs] at hfind
    have hr := hfind.roster h
    have hp : p ∈ r.items := List.mem_of_mem_take (scan_mem hs)
    unfold completion
    dsimp only
    rw [cliCmdStr_run hr.inv (hr.alive p hp)]
    exact hfind

theorem run_kept (h : Roster r) (hs : Run handlerStep (.init r) is s) : Kept r s.reg := by
  refine hs.invariant (I := fun s => Kept r s.reg) ?_ (.refl r)
  intro s i t hk hst
  have hr := hk.roster h
  cases hst ▸ handle_stroke (s := s) (i := i) with
  | tab _ => exact hk.trans (tabCall_kept hr)
  | line _ _ => exact hk.trans (lineCall_kept hr)
  | _ => exact hk

theorem newline_commands (hlen : s.curCmdLen ≠ 0) (w : Bool) :
    (handle ⟨.byte 10, w⟩ s).commands = (lineCall s.text s.reg).1 ++ s.commands ∧
      (handle ⟨.byte 10, w⟩ s).reg = (lineCall s.text s.reg).2 := by
  rw [handle_newline rfl, if_neg hlen]
  refine ⟨?_, rfl⟩
  change ((s.calls (lineCall s.text s.reg)).events _).commands = _
  rw [events_commands (by simp [Event.isCommand]), ← lineCall_commands]
  exact List.filter_append ..

theorem newline_cases (h : Roster s.reg) (hlen : s.curCmdLen ≠ 0) (w : Bool)
    (htext : s.text = .ofBytes line) :
    (Refuses s (handle ⟨.byte 10, w⟩ s) ∧ (∀ p, ¬ Runs s (handle ⟨.byte 10, w⟩ s) p) ∧
      ∀ k < reach s.reg, ∀ p, s.reg.items[k]? = some p → ¬ nameOf s.reg p <+: line) ∨
    ∃ k < reach s.reg, ∃ q, s.reg.items[k]? = some q ∧ nameOf s.reg q <+: line ∧
      (∀ m < k, ∀ p, s.reg.items[m]? = some p → ¬ nameOf s.reg p <+: line) ∧
      ¬ Refuses s (handle ⟨.byte 10, w⟩ s) ∧ ∀ p, Runs s (handle ⟨.byte 10, w⟩ s) p ↔ p = q := by
  obtain ⟨hcommands, hreg⟩ := newline_commands hlen w
  have hmatch : ∀ p, s.reg.Matches s.text p ↔ nameOf s.reg p <+: line := fun p => by
    rw [htext]
    exact prefix_ofBytes (s.reg.cmds p).cmd.noNul
  have htake : ∀ {k p}, k < reach s.reg → s.reg.items[k]? = some p →
      (s.reg.items.take (reach s.reg))[k]? = some p := fun hk hp => by
    rw [List.getElem?_take_of_lt hk, hp]
  unfold Refuses Runs
  rw [hcommands, hreg]
  generalize handle ⟨.byte 10, w⟩ s = t
  rcases hs : s.reg.scan s.text 0 (s.reg.items.take (reach s.reg)) with _ | ⟨q, j⟩
  · left
    rw [lineCall_none h hs]
    refine ⟨⟨rfl, rfl⟩, fun p hp => ?_, fun k hk p hp hpre => ?_⟩
    · simpa using hp.1
    · exact scan_eq_none hs p (List.mem_of_getElem? (htake hk hp)) ((hmatch p).2 hpre)
  · right
    obtain ⟨f, hf, heq⟩ := lineCall_some h hs
    obtain ⟨k, -, hget, hq, hfirst⟩ := scan_eq_some hs
    rw [heq]
    rw [List.getElem?_take] at hget
    split_ifs at hget with hk
    refine ⟨k, hk, q, hget, (hmatch q).1 hq, fun m hm p hp hpre => ?_, fun hr => ?_, fun p => ?_⟩
    · exact hfirst m hm p (htake (hm.trans hk) hp) ((hmatch p).2 hpre)
    · simpa using hr.1
    · constructor
      · intro hr
        simpa [eq_comm] using hr.1
      · rintro rfl
        exact ⟨rfl, f, hf, rfl⟩

theorem exact_iff (h : Roster r) (hn : Names r) (hk : Kept r s.reg) (hlen : s.curCmdLen ≠ 0)
    (w : Bool) (htext : s.text = .ofBytes line) :
    Exact r line s (handle ⟨.byte 10, w⟩ s) ↔ Clear r line := by
  have hcases := newline_cases (hk.roster h) hlen w htext
  have hname : ∀ p, nameOf s.reg p = nameOf r p := fun p => congrArg CString.bytes (hk.cmd p)
  have hreach : reach s.reg = reach r := by rw [reach, reach, hk.items]
  simp only [hname, hreach, hk.items] at hcases
  generalize handle ⟨.byte 10, w⟩ s = t at *
  rcases hcases with ⟨hrefused, hnone, hmiss⟩ | ⟨k, hk, q, hq, hpre, hfirst, hnot, hruns⟩
  · -- nothing matches, so the line must call nothing
    have hcalls : ∀ i < reach r, ∀ p, r.items[i]? = some p → ¬ Calls line (nameOf r p) :=
      fun i hi p hp hc => hmiss i hi p hp hc.prefix
    constructor
    · rintro ⟨hexact, -⟩
      refine ⟨fun i p hp hc => ?_, fun i hi p hp hpre => absurd hpre (hmiss i hi p hp)⟩
      exact absurd ((hexact p (List.mem_of_getElem? hp)).2 hc) (hnone p)
    · rintro ⟨hwithin, -⟩
      refine ⟨fun p hp => iff_of_false (hnone p) fun hc => ?_, fun _ => hrefused⟩
      obtain ⟨i, hi⟩ := List.mem_iff_getElem?.1 hp
      exact hcalls i (hwithin i p hi hc) p hi hc
  · have hmem : q ∈ r.items := List.mem_of_getElem? hq
    constructor
    · rintro ⟨hexact, -⟩
      have hcq : Calls line (nameOf r q) := (hexact q hmem).1 ((hruns q).2 rfl)
      refine ⟨fun i p hp hc => ?_, fun i hi p hp hpre' hc => ⟨k, ?_, q, hq, hcq⟩⟩
      · have hpq : p = q := (hruns p).1 ((hexact p (List.mem_of_getElem? hp)).2 hc)
        have hlt : i < r.items.length := (List.getElem?_eq_some_iff.1 hp).1
        obtain rfl : i = k := (List.getElem?_inj hlt h.nodup).1 (hp.trans (hpq ▸ hq.symm))
        exact hk
      · have hne : i ≠ k := by
          rintro rfl
          exact hc (Option.some.inj (hp.symm.trans hq) ▸ hcq)
        exact (not_lt.1 fun hik => hfirst i hik p hp hpre').lt_of_ne hne.symm
    · rintro ⟨hwithin, hbefore⟩
      have hcq : Calls line (nameOf r q) := by
        by_contra hc
        obtain ⟨j, hj, q', hq', hc'⟩ := hbefore k hk q hq hpre hc
        exact hfirst j hj q' hq' hc'.prefix
      refine ⟨fun p hp => (hruns p).trans ⟨fun h => h ▸ hcq, fun hc => hn.unique hp hmem hc hcq⟩,
        fun hc => absurd hcq (hc q hmem)⟩

theorem run_exact_iff (hr : Roster r) (hn : Names r) (hs : Run handlerStep (.init r) is s)
    (ha : Run editorStep (.init r) is a) (hne : a.line ≠ []) (w : Bool) :
    Exact r a.line s (handle ⟨.byte 10, w⟩ s) ↔ Clear r a.line := by
  have hedits := hs.simulates ha (fun _ _ _ _ _ => Edits.step) Edits.init
  have hlen : s.curCmdLen ≠ 0 := fun h0 => by
    have hlen := hedits.len
    rw [h0] at hlen
    exact hne (List.length_eq_zero_iff.1 hlen.symm)
  exact exact_iff hr hn (run_kept hr hs) hlen w hedits.text

/-- A line runs the command it calls, and no other, exactly when the lookup gets to that command
before any other whose name begins the line. -/
theorem dispatch_exact_iff {ops : List Op} {c : Session}
    (hops : Run (fun s op t => sessionStep s op t ∧ Faithful t) .init ops c)
    (hd : ¬ c.reg.Dangling) (hn : Names c.reg) (hs : Run handlerStep (.init c.reg) is s)
    (ha : Run editorStep (.init c.reg) is a) (hne : a.line ≠ []) (w : Bool) :
    Exact c.reg a.line s (handle ⟨.byte 10, w⟩ s) ↔ Clear c.reg a.line :=
  run_exact_iff (roster_of_faithful hops hd) hn hs ha hne w

def typed (cs : List UInt8) : List Input := cs.map fun c => ⟨.byte c, true⟩

theorem run_handled (s : Ctx) (is : List Input) :
    Run handlerStep s is (is.foldl (fun s i => handle i s) s) := by
  induction is generalizing s with
  | nil => exact .nil s
  | cons i is ih => exact .cons rfl (ih _)

theorem run_typed {cs : List UInt8} (h : 8 ∉ cs) (a : ListEditor) :
    Run editorStep a (typed cs) (cs.foldl ListEditor.next a) := by
  induction cs generalizing a with
  | nil => exact .nil a
  | cons c cs ih =>
    have hc : c ≠ 8 := fun hc => h (by simp [hc])
    exact .cons ⟨c, rfl, fun h8 => absurd h8 hc, rfl⟩ (ih (fun hm => h (List.mem_cons_of_mem c hm)) _)

def helpOps : List Op :=
  [.init .all (.ofBytes (bytes "help")) (.ofBytes []) 1 1, .register 0 (some 0) 0 true]

def helpSession : Session := helpOps.foldl Session.apply .init

theorem helpSession_run :
    Run (fun s op t => sessionStep s op t ∧ Faithful t) .init helpOps helpSession :=
  .cons ⟨⟨trivial, rfl⟩, rfl, fun _ he => by cases he⟩
    (.cons ⟨⟨⟨rfl, by decide⟩, rfl⟩, rfl, fun _ he => by cases he⟩ (.nil _))

theorem helpSession_names : Names helpSession.reg := by
  have hitems : helpSession.reg.items = [0] := rfl
  have hspace : ∀ x ∈ nameOf helpSession.reg 0, isspace x = false := by decide +kernel
  refine ⟨fun p hp q hq _ => ?_, fun p hp => ?_⟩
  · rw [hitems, List.mem_singleton] at hp hq
    rw [hp, hq]
  · rw [hitems, List.mem_singleton] at hp
    exact hp ▸ hspace

def helpEditor (cs : List UInt8) : Ctx :=
  (typed cs).foldl (fun s i => handle i s) (.init helpSession.reg)

theorem dispatch_exact_iff_help :
    Exact helpSession.reg (bytes "help me") (helpEditor (bytes "help me"))
        (handle ⟨.byte 10, true⟩ (helpEditor (bytes "help me"))) ↔
      Clear helpSession.reg (bytes "help me") :=
  dispatch_exact_iff helpSession_run (by decide) helpSession_names (run_handled _ _)
    (run_typed (by decide) _) (by decide) true

theorem not_dispatch_exact_helpme :
    ¬ Exact helpSession.reg (bytes "helpme") (helpEditor (bytes "helpme"))
      (handle ⟨.byte 10, true⟩ (helpEditor (bytes "helpme"))) := by
  have hroster := roster_of_faithful helpSession_run (by decide)
  have hname : nameOf helpSession.reg 0 = bytes "help" := rfl
  have hcalls : ¬ Calls (bytes "helpme") (nameOf helpSession.reg 0) := fun hc => by
    have hword := hc.takeWhile_eq (helpSession_names.noSpace 0 (by decide))
    rw [hname] at hword
    exact absurd hword (by decide)
  intro hexact
  have hclear : Clear helpSession.reg (bytes "helpme") := (run_exact_iff hroster helpSession_names
    (run_handled _ _) (run_typed (by decide) _) (by decide) true).1 hexact
  obtain ⟨j, hj, -⟩ := hclear.2 0 (by decide) 0 rfl (by decide) hcalls
  exact absurd hj (Nat.not_lt_zero j)

end Evsip.Cli
