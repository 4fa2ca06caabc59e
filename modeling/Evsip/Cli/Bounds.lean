import Evsip.Cli.Stroke
import Evsip.Lib.Run

/-! The bounds of the line buffer. The length goes up under a guard and down without one. -/

namespace Evsip.Cli
open CLib Cmdlst Transition

/-- The line is shorter than its buffer and padded with zeros, and all that was stored or
written out so far lay inside the buffer. -/
structure Bounded (s : Ctx) : Prop where
  len_le : s.curCmdLen.toNat ≤ 255
  tail : ∀ (i : Nat) (h : i < 256), s.curCmdLen.toNat ≤ i → s.curCmd[i] = 0
  store_lt : ∀ i, .store i ∈ s.trace → i.toNat < 256
  echo_le : ∀ n, .echo n ∈ s.trace → n.toNat ≤ 256

def BackspaceOnEmpty (s : Ctx) (i : Input) : Prop := i.read = .byte 8 ∧ s.curCmdLen = 0

variable {s t : Ctx} {i : Input} {reg : Registry}

def Event.Quiet : Event → Prop
  | store _ | echo _ => False
  | _ => True

theorem Bounded.events (h : Bounded s) (es : List Event) (hq : ∀ e ∈ es, e.Quiet) :
    Bounded (s.events es) := by
  refine ⟨h.len_le, h.tail, fun i hi => ?_, fun n hn => ?_⟩
  · rcases List.mem_append.1 hi with hi | hi
    · exact (hq _ hi).elim
    · exact h.store_lt i hi
  · rcases List.mem_append.1 hn with hn | hn
    · exact (hq _ hn).elim
    · exact h.echo_le n hn

theorem Bounded.calls (h : Bounded s) {r : List Event × Registry} (hq : ∀ e ∈ r.1, e.Quiet) :
    Bounded (s.calls r) :=
  have he := h.events _ hq
  ⟨he.len_le, he.tail, he.store_lt, he.echo_le⟩

theorem Bounded.redrawn (h : Bounded s) : Bounded s.redrawn := by
  refine ⟨h.len_le, h.tail, fun i hi => ?_, fun n hn => ?_⟩
  · exact h.store_lt i (by simpa [Ctx.redrawn, Ctx.events] using hi)
  · have hn : n = s.curCmdLen ∨ .echo n ∈ s.trace := by
      simpa [Ctx.redrawn, Ctx.events] using hn
    rcases hn with rfl | hn
    · exact h.len_le.trans (by decide)
    · exact h.echo_le n hn

theorem Bounded.cleaned (h : Bounded s) : Bounded s.cleaned := by
  have he := h.events [.prompt s.promptText] (by simp [Event.Quiet])
  exact ⟨by simp [Ctx.cleaned], by simp [Ctx.cleaned], he.store_lt, he.echo_le⟩

theorem tabCall_quiet (text : CString) : ∀ e ∈ (tabCall text reg).1, e.Quiet := by
  intro e he
  obtain ⟨name, rfl⟩ := tabCall_events he
  trivial

theorem lineCall_quiet (text : CString) : ∀ e ∈ (lineCall text reg).1, e.Quiet := by
  intro e he
  rcases lineCall_events he with rfl | ⟨p, rfl⟩ | rfl <;> trivial

theorem Bounded.stored (h : Bounded s) {j len : UInt64} {c : UInt8} (hj : j.toNat < 256)
    (hlen : len.toNat ≤ 255)
    (htail : ∀ i, len.toNat ≤ i → j.toNat = i ∧ c = 0 ∨ j.toNat ≠ i ∧ s.curCmdLen.toNat ≤ i) :
    Bounded (s.stored j c len) := by
  refine ⟨hlen, fun i hi hle => ?_, fun i hi => ?_, fun n hn => ?_⟩
  · rcases htail i hle with ⟨hji, hc⟩ | ⟨hji, hold⟩
    · simp [Ctx.stored, hji, hc]
    · have hget := h.tail i hi hold
      simpa [Ctx.stored, Vector.getElem_setIfInBounds, hji] using hget
  · have hi : i = j ∨ .store i ∈ s.trace := by simpa [Ctx.stored, Ctx.events] using hi
    rcases hi with rfl | hi
    · exact hj
    · exact h.store_lt i hi
  · exact h.echo_le n (by simpa [Ctx.stored, Ctx.events] using hn)

theorem Bounded.push (h : Bounded s) (hl : s.curCmdLen < 255) (c : UInt8) :
    Bounded (s.stored s.curCmdLen c (s.curCmdLen + 1)) := by
  have hlt : s.curCmdLen.toNat < 255 := by simpa [UInt64.lt_iff_toNat_lt] using hl
  have hlen := toNat_add_one hlt
  refine h.stored (hlt.trans (by decide)) (by rw [hlen]; exact hlt) fun i hi => .inr ?_
  rw [hlen] at hi
  exact ⟨(Nat.lt_of_succ_le hi).ne, Nat.le_of_succ_le hi⟩

theorem Bounded.pop (h : Bounded s) (hl : s.curCmdLen ≠ 0) :
    Bounded (s.stored (s.curCmdLen - 1) 0 (s.curCmdLen - 1)) := by
  have hne : s.curCmdLen.toNat ≠ 0 := fun h0 => hl (UInt64.toNat_inj.1 h0)
  have hlen := toNat_sub_one hne
  have hle := h.len_le
  refine h.stored (by omega) (by omega) fun i hi => ?_
  by_cases he : (s.curCmdLen - 1).toNat = i
  · exact .inl ⟨he, rfl⟩
  · exact .inr ⟨he, by omega⟩

theorem bounded_step (h : Bounded s) (hs : handlerStep s i t) :
    Bounded t ↔ ¬ BackspaceOnEmpty s i := by
  have hnot : i.read ≠ .byte 8 → ¬ BackspaceOnEmpty s i := mt And.left
  have hord : ∀ {r : ReadResult}, Ordinary r.char → r ≠ .byte 8 := fun hc hr => by
    subst hr
    exact hc.2.2.1 rfl
  have hn : Bounded (s.events [.newline]) := h.events _ (by simp [Event.Quiet])
  cases hs ▸ handle_stroke (s := s) (i := i) with
  | eof hr => exact iff_of_true h (hnot (by simp [hr]))
  | unwritten hr _ => exact iff_of_true h (hnot (by simp [hr]))
  | redraw hr _ => exact iff_of_true hn.redrawn (hnot (by simp [hr]))
  | tab hr => exact iff_of_true (hn.calls (tabCall_quiet _)).redrawn (hnot (by simp [hr]))
  | backspace hr =>
    by_cases hl : s.curCmdLen = 0
    · refine iff_of_false (fun hb => ?_) fun hno => hno ⟨hr, hl⟩
      have hst := hb.store_lt (s.curCmdLen - 1) (by simp [Ctx.redrawn, Ctx.stored, Ctx.events])
      exact absurd hst (by rw [hl]; decide)
    · exact iff_of_true (h.pop hl).redrawn fun hno => hl hno.2
  | blank hr _ => exact iff_of_true h.cleaned (hnot (by simp [hr]))
  | line hr _ => exact iff_of_true (h.calls (lineCall_quiet _)).cleaned (hnot (by simp [hr]))
  | char _ hc hl => exact iff_of_true (h.push hl _) (hnot (hord hc))
  | full _ hc _ => exact iff_of_true h (hnot (hord hc))

theorem Bounded.init : Bounded (.init reg) :=
  ⟨by simp [Ctx.init], by simp [Ctx.init], by simp [Ctx.init], by simp [Ctx.init]⟩

theorem Bounded.zero_mem (h : Bounded s) : 0 ∈ s.curCmd.toList := by
  have hget := h.tail 255 (by decide) h.len_le
  rw [← hget]
  simp

/-- The bounds hold throughout a run exactly when no backspace arrives on an empty line. -/
theorem bounded_run_iff (reg : Registry) (is : List Input) (t : Ctx) :
    Run (fun s i t => handlerStep s i t ∧ Bounded t) (.init reg) is t ↔
      Run (guarded handlerStep fun s i => ¬ BackspaceOnEmpty s i) (.init reg) is t :=
  run_good_iff (fun _ _ _ => bounded_step) (fun _ _ _ _ _ h => h) Bounded.init

theorem not_bounded_backspace : ∃ t, Run handlerStep (.init .init) [⟨.byte 8, true⟩] t ∧
    t.curCmdLen = -1 ∧ .store (-1) ∈ t.trace ∧ ¬ Bounded t :=
  ⟨_, .cons rfl (.nil _), by decide, by decide, fun h => absurd h.len_le (by decide)⟩

end Evsip.Cli
