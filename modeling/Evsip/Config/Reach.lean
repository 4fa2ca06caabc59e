import Evsip.Config.Scan

/-! Where the parser reads and writes, against the bounds of the line buffer. -/

namespace Evsip.Config
open CLib

def InBuffer (trace : List (Nat × Nat)) : Prop :=
  ∀ a ∈ trace, ∀ i, a.1 ≤ i → i ≤ a.2 → i < maxLine

/-- The 64 bytes from the value of a string option on end inside the buffer. -/
def CopyFits (chunk : List UInt8) : Prop :=
  ∀ name value o, lineEntry chunk = some (name, value) → slotOf name = some (.string64 o) →
    valueStart (chunk.takeWhile (· ≠ 0)) + 64 ≤ maxLine

variable {st st' : Parser} {tr new : List (Nat × Nat)} {text name value chunk s cur : List UInt8}
  {n v lo hi : Nat} {beyond : Nat → UInt8} {c : ConfigCtx}

/-- The copy fits exactly when the value of a string option starts at byte 64 at the latest. -/
theorem copyFits_iff : CopyFits chunk ↔ ∀ o w0 w1 w2 c v,
    stripEnd (chunk.takeWhile (· ≠ 0)) = w0 ++ slotName (.string64 o) ++ w1 ++ c :: (w2 ++ v) →
    (∀ x ∈ w0 ++ w1 ++ w2, isspace x) → c = 61 ∨ c = 58 ∧ ¬ EqualsIn (w2 ++ v) →
      (w0 ++ slotName (.string64 o) ++ w1 ++ c :: w2).length ≤ 64 := by
  constructor
  · intro hfits o w0 w1 w2 c v hline hw hc
    obtain ⟨hw, hw2⟩ := List.forall_mem_append.1 hw
    have hle := hfits _ _ o ((lineEntry_option_iff (slotName_mem _)).2 ⟨w0, w1, c, _, hline, hw, hc, rfl⟩)
      slotOf_slotName
    have hlead : w2.length ≤ lead (w2 ++ v) := by
      rw [lead, List.takeWhile_append_of_pos hw2, List.length_append]
      exact Nat.le_add_right _ _
    rw [valueStart_option (slotName_mem _) hline hw hc] at hle
    simp only [List.length_append, List.length_cons, maxLine] at hle ⊢
    omega
  · intro h name value o hentry hslot
    rw [slotOf_eq_some_iff.1 hslot, lineEntry_option_iff (slotName_mem _)] at hentry
    obtain ⟨w0, w1, c, b, hline, hw, hc, rfl⟩ := hentry
    have hb : b.takeWhile isspace ++ stripStart b = b := List.takeWhile_append_dropWhile
    have hle := h o w0 w1 (b.takeWhile isspace) c (stripStart b) (by rwa [hb])
      (List.forall_mem_append.2 ⟨hw, fun x => List.mem_takeWhile_imp⟩) (by rwa [hb])
    rw [valueStart_option (slotName_mem _) hline hw hc, lead]
    simp only [List.length_append, List.length_cons, maxLine] at hle ⊢
    omega

theorem inBuffer_append : InBuffer (new ++ tr) ↔ InBuffer new ∧ InBuffer tr := by
  unfold InBuffer
  exact List.forall_mem_append

theorem inBuffer_cons (h : lo ≤ hi) : InBuffer ((lo, hi) :: tr) ↔ hi < maxLine ∧ InBuffer tr := by
  unfold InBuffer
  rw [List.forall_mem_cons]
  exact and_congr_left' ⟨fun hi' => hi' hi h le_rfl, fun hlt i _ hi' => hi'.trans_lt hlt⟩

theorem Quiet.inBuffer_iff (h : Quiet n st st') (hn : n < maxLine) :
    InBuffer st'.trace ↔ InBuffer st.trace := by
  obtain ⟨new, hnew, hle⟩ := h.trace_eq
  rw [hnew, inBuffer_append, and_iff_right]
  exact fun a ha i _ hi => (hi.trans (hle a ha)).trans_lt hn

theorem valueOf_length_le : lead s + (valueOf s).length ≤ s.length := by
  have htake : ((stripStart s).take (findCharLoop 0 false (stripStart s))).length ≤
      (stripStart s).length := List.length_take_le' _ _
  have hvalue : (valueOf s).length ≤ _ := stripEnd_length_le
  have hlead := lead_add_length (s := s)
  omega

theorem entryOf_eq_some (h : entryOf s = some (name, value)) : sepPos s < s.length ∧
    name = stripEnd (s.take (sepPos s)) ∧ value = valueOf (s.drop (sepPos s + 1)) := by
  unfold entryOf at h
  split_ifs at h with hskip hsep
  have hlt : sepPos s < s.length := by
    refine sepPos_le.lt_of_ne fun heq => ?_
    rw [heq, List.getD_eq_default _ _ le_rfl] at hsep
    exact absurd hsep (by decide)
  obtain ⟨rfl, rfl⟩ := Prod.mk.inj (Option.some.inj h)
  exact ⟨hlt, rfl, rfl⟩

theorem entry_length (h : entryOf (stripStart (stripEnd text)) = some (name, value)) :
    nameStart text + name.length ≤ text.length ∧ valueStart text + value.length ≤ text.length := by
  have hend : nameStart text + (stripStart (stripEnd text)).length ≤ text.length :=
    lead_add_length.trans_le stripEnd_length_le
  unfold valueStart
  generalize stripStart (stripEnd text) = t at *
  obtain ⟨hlt, rfl, rfl⟩ := entryOf_eq_some h
  have hname : (stripEnd (t.take (sepPos t))).length ≤ sepPos t :=
    stripEnd_length_le.trans (List.length_take_le _ _)
  have hvalue : lead (t.drop (sepPos t + 1)) + (valueOf (t.drop (sepPos t + 1))).length ≤
      t.length - (sepPos t + 1) := valueOf_length_le.trans_eq List.length_drop
  constructor
  · omega
  · dsimp only
    omega

theorem handler_inBuffer (hn : StrAt st.line n name) (hv : StrAt st.line v value)
    (hname : n + name.length < maxLine) (hvalue : v + value.length < maxLine) :
    InBuffer ((configKeyvalHandler beyond n v).run st).2.trace ↔
      InBuffer st.trace ∧ ∀ o, slotOf name = some (.string64 o) → v + 64 ≤ maxLine := by
  have hread : InBuffer (st.touched n (n + name.length)).trace ↔ InBuffer st.trace := by
    rw [Parser.touched, inBuffer_cons (Nat.le_add_right _ _), and_iff_right hname]
  rw [configKeyvalHandler_run hn hv]
  rcases slotOf name with _ | o | o
  · refine hread.trans (and_iff_left ?_).symm
    simp
  · have hcopy : v + 63 < maxLine ↔ v + 64 ≤ maxLine := Iff.rfl
    change InBuffer ((v, v + 63) :: (st.touched n (n + name.length)).trace) ↔ _
    rw [inBuffer_cons (Nat.le_add_right _ _), hread, hcopy, and_comm]
    simp
  · change InBuffer ((v, v + value.length) :: (st.touched n (n + name.length)).trace) ↔ _
    rw [inBuffer_cons (Nat.le_add_right _ _), hread, and_iff_right hvalue]
    simp

theorem pass_inBuffer (h : chunk.length < maxLine) :
    InBuffer ((parseLine beyond).run (st.filled chunk)).2.trace ↔
      InBuffer st.trace ∧ CopyFits chunk := by
  have htext : (chunk.takeWhile (· ≠ 0)).length ≤ chunk.length :=
    (List.takeWhile_prefix _).length_le
  have hline : StrAt (st.filled chunk).line 0 (chunk.takeWhile (· ≠ 0)) := filled_strAt
  obtain ⟨st', hrun, hquiet, hargs⟩ := lineCall_run hline
  have hbefore : InBuffer st'.trace ↔ InBuffer st.trace :=
    ((Quiet.filled le_rfl).trans (hquiet.mono htext)).inBuffer_iff h
  rw [parseLine_eq, StateT.run_bind, hrun, pure_bind]
  unfold CopyFits lineEntry
  generalize chunk.takeWhile (· ≠ 0) = text at *
  rcases he : entryOf (stripStart (stripEnd text)) with _ | ⟨name, value⟩
  · refine hbefore.trans (and_iff_left ?_).symm
    simp
  · obtain ⟨hname, hvalue⟩ := hargs name value he
    obtain ⟨hn, hv⟩ := entry_length he
    refine (handler_inBuffer hname hvalue (by omega) (by omega)).trans (and_congr hbefore ?_)
    constructor
    · intro hcopy name' value' o hentry
      cases hentry
      exact hcopy o
    · exact fun hcopy o => hcopy name value o rfl

theorem fgetsChunks_length (h : cur.length < 127) :
    ∀ chunk ∈ fgetsChunks cur s, chunk.length < maxLine := by
  induction s generalizing cur with
  | nil =>
    cases cur with
    | nil => simp [fgetsChunks]
    | cons c cur => simpa [fgetsChunks] using Nat.lt_trans h (by decide)
  | cons c s ih =>
    have hlen : (cur ++ [c]).length = cur.length + 1 := List.length_append
    rw [fgetsChunks.eq_3]
    split_ifs with hfull
    · exact List.forall_mem_cons.2 ⟨by unfold maxLine; omega, ih (by simp)⟩
    · have hne : (cur ++ [c]).length ≠ 127 := fun h => hfull (.inr h)
      exact ih (by omega)

theorem parseLoop_inBuffer (beyond : Nat → Nat → UInt8) (n : Nat) (chunks : List (List UInt8))
    (h : ∀ chunk ∈ chunks, chunk.length < maxLine) :
    InBuffer ((parseLoop beyond n chunks).run st).2.trace ↔
      InBuffer st.trace ∧ ∀ chunk ∈ chunks, CopyFits chunk := by
  induction chunks generalizing st n with
  | nil => exact (and_iff_left (List.forall_mem_nil _)).symm
  | cons chunk chunks ih =>
    obtain ⟨hchunk, hchunks⟩ := List.forall_mem_cons.1 h
    rw [parseLoop, StateT.run_bind, fill_run, pure_bind, StateT.run_bind, List.forall_mem_cons,
      ← and_assoc, ← pass_inBuffer hchunk]
    exact ih (n + 1) hchunks

/-- Every access lies in the buffer exactly when every copy of a value does. -/
theorem accesses_in_buffer_iff {fopen : CString → Option (List UInt8)} {content : List UInt8}
    (h : Opens fopen c content) (beyond : Nat → Nat → UInt8) :
    InBuffer (configStartParse fopen beyond c).2.trace ↔
      ∀ chunk ∈ fgetsChunks [] content, CopyFits chunk := by
  rw [configStartParse_run h, parseLoop_inBuffer beyond 1 _ (fgetsChunks_length (by decide))]
  exact and_iff_right fun a ha => absurd ha List.not_mem_nil

theorem accesses_in_buffer_iff_default :
    InBuffer (configStartParse (fun _ => some (bytes "user_agent=a")) (fun _ _ => 0)
      (configInit .zero none).2).2.trace ↔
        ∀ chunk ∈ fgetsChunks [] (bytes "user_agent=a"), CopyFits chunk :=
  accesses_in_buffer_iff (opens_init .zero none _) _

theorem not_accesses_in_buffer :
    ¬ InBuffer (configStartParse (fun _ => some (bytes "user_agent=" ++ .replicate 60 32 ++ [97]))
      (fun _ _ => 0) (configInit .zero none).2).2.trace := by
  rw [configStartParse_run (opens_init _ _ _),
    parseLoop_inBuffer _ _ _ (fgetsChunks_length (by decide))]
  rintro ⟨-, hcopies⟩
  have hchunks : fgetsChunks [] (bytes "user_agent=" ++ .replicate 60 32 ++ [97]) =
      [bytes "user_agent=" ++ .replicate 60 32 ++ [97]] := by decide +kernel
  have hentry : lineEntry (bytes "user_agent=" ++ .replicate 60 32 ++ [97]) =
      some (bytes "user_agent", [97]) := by decide +kernel
  rw [hchunks, List.forall_mem_singleton] at hcopies
  exact absurd (hcopies _ _ .userAgent hentry (by decide)) (by decide +kernel)

end Evsip.Config
