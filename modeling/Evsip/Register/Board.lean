import Evsip.Lib.View
import Mathlib.Data.List.InsertIdx
import Evsip.Register.Outcome

/-! The registrar without pointers: a list of lines, each with a host and a contact that may have
been lost. Whatever fails, the handler does to its end points what is done here to the lines. -/

namespace Evsip.Register
open CLib Endp Store

/-- The host and the contact of an end point. -/
abbrev Line := Option CString × Option CString

structure Board where
  hasList : Bool
  lines : List Line

def seek (host : Option CString) : List Line → Except Fault (Option ℕ)
  | [] => .ok none
  | (some k, _) :: rest =>
    match host with
    | some k' => if k = k' then .ok (some 0) else (seek host rest).map (Option.map (· + 1))
    | none => .error .nullString
  | (none, _) :: _ => .error .nullString

def kept (a : Allocs) (c : SipContact) : Line :=
  (if a.strdupHost then c.mUrl.urlHost else none, if a.strdupContact then c.mUrl.urlUser else none)

namespace Board

def init : Board := ⟨false, []⟩

def add (b : Board) (a : Allocs) (c : SipContact) : Board :=
  let hasList := b.hasList || a.vectorCreate
  ⟨hasList, if hasList && a.vectorAppend then b.lines ++ [kept a c] else b.lines⟩

def dump (b : Board) : List Line := b.lines.map Prod.swap

def contact (a : Allocs) (m : Sip) (c : SipContact) (b : Board) :
    Except Fault (Handled × Board) :=
  (seek c.mUrl.urlHost b.lines).map fun
    | some i =>
      let b' : Board :=
        { b with lines := if m.exptime > 0 then b.lines.set i (kept a c) else b.lines.eraseIdx i }
      (answer m c b'.dump, b')
    | none =>
      if m.exptime > 0 then
        if a.homeClone then (answer m c (b.add a c).dump, b.add a c)
        else (⟨.errorOutOfResources, [.trying, .internalServerError], none⟩, b)
      else (answer m c b.dump, b)

/-- A REGISTER, as those see it who only see the answers and the dumps. -/
def handler (a : Allocs) (sip : Option Sip) : StateT Board (Except Fault) Handled :=
  fun b =>
    match sip with
    | none => .ok (⟨.success, [.internalServerError], none⟩, b)
    | some m =>
      if (m.sipRequest.bind (·.rqMethodName)).isNone then
        .ok (⟨.success, [.internalServerError], none⟩, b)
      else
        match m.sipTo with
        | none => .error .nullPointer
        | some sipTo =>
          if sipTo.aUrl.urlUser.isNone ∨ sipTo.aUrl.urlHost.isNone then
            .ok (⟨.success, [.unauthorized], none⟩, b)
          else
            match m.sipContact with
            | none => .error .nullPointer
            | some c => b.contact a m c

end Board

def line (s : Store) (p : EndpPtr) : Line := (s.hostOf p, s.contactOf p)

/-- What is seen of a store. -/
def board (s : Store) : Board := ⟨s.gpEndpList.isSome, s.items.map (line s)⟩

variable {s t : Store} {a : Allocs} {c : SipContact} {m : Sip} {p : EndpPtr} {ps : List EndpPtr}
  {host : Option CString}

theorem scan_seek :
    scan s host ps = (seek host (ps.map (line s))).map fun o => o.bind fun i => ps[i]? := by
  induction ps with
  | nil => rfl
  | cons p ps ih =>
    rw [scan_cons, List.map_cons, line]
    rcases s.hostOf p with _ | k
    · rfl
    rcases host with _ | k'
    · rfl
    dsimp only [seek]
    rw [ih]
    split_ifs
    · rfl
    · rcases seek (some k') (ps.map (line s)) with e | _ | i <;> rfl

theorem seek_lt {ls : List Line} {i : ℕ} (h : seek host ls = .ok (some i)) : i < ls.length := by
  induction ls generalizing i with
  | nil => cases h
  | cons l ls ih =>
    rcases l with ⟨_ | k, contact⟩
    · cases h
    rcases host with _ | k'
    · cases h
    dsimp only [seek] at h
    split_ifs at h
    · cases h
      exact Nat.succ_pos _
    · rcases hr : seek (some k') ls with e | _ | j
      · rw [hr] at h
        cases h
      · rw [hr] at h
        cases h
      · rw [hr] at h
        cases h
        exact Nat.succ_lt_succ (ih hr)

@[simp] theorem line_used (n : ℕ) : line (s.used n) = line s := rfl

@[simp] theorem board_used (n : ℕ) : board (s.used n) = board s := rfl

theorem board_dump : (board s).dump = s.dump := by
  simp [Board.dump, board, line, Store.dump, List.map_map, Function.comp_def]

theorem board_refresh (h : Inv s) {i : ℕ} (hi : s.items[i]? = some p) :
    board (refresh a c s p) =
      { board s with lines := (s.items.map (line s)).set i (kept a c) } := by
  have hline : line (refresh a c s p) = Function.update (line s) p (kept a c) := by
    funext q
    by_cases hq : q = p <;> simp [line, hq, kept]
  have hp : p ∈ s.items := List.mem_of_getElem? hi
  have hidx : s.items.idxOf p = i := by
    obtain ⟨hlt, rfl⟩ := List.getElem?_eq_some_iff.1 hi
    exact h.nodup.idxOf_getElem i hlt
  rw [board, refresh_list, refresh_items, hline, h.nodup.map_update, if_pos hp, hidx]
  rfl

theorem board_detach (h : Inv s) {i : ℕ} (hi : s.items[i]? = some p) :
    board (s.detach p) = { board s with lines := (s.items.map (line s)).eraseIdx i } := by
  have hline : line (s.detach p) = line s := by
    funext q
    simp [line]
  have hidx : s.items.idxOf p = i := by
    obtain ⟨hlt, rfl⟩ := List.getElem?_eq_some_iff.1 hi
    exact h.nodup.idxOf_getElem i hlt
  have hlist : (s.detach p).gpEndpList.isSome = s.gpEndpList.isSome := Option.isSome_map ..
  rw [board, hlist, detach_items, hline, List.erase_eq_eraseIdx_of_idxOf hidx, List.eraseIdx_map]
  rfl

theorem board_register (h : Inv s) : board (register a c s) = (board s).add a c := by
  have hold : s.items.map (line (register a c s)) = s.items.map (line s) :=
    List.map_congr_left fun q hq => by
      rw [line, register_hostOf, register_contactOf, if_neg (h.ne_next hq), if_neg (h.ne_next hq),
        line]
  have hnew : line (register a c s) s.next = kept a c := by
    rw [line, register_hostOf, register_contactOf, if_pos rfl, if_pos rfl, kept]
  have hlist : (register a c s).gpEndpList.isSome = (s.gpEndpList.isSome || a.vectorCreate) := by
    rw [register_list]
    rcases s.gpEndpList with _ | v <;> rcases a.vectorCreate with _ | _ <;> rfl
  rw [board, hlist, register_items, listable, Board.add, board]
  dsimp only
  split_ifs
  · rw [List.map_append, List.map_singleton, hold, hnew]
  · rw [hold]

theorem contactEffect_board (h : Inv s) :
    (contactEffect a m c s).map (fun r => (r.1, board r.2)) = (board s).contact a m c := by
  have h₁ := h.used 1
  have hlines : (board s).lines = s.items.map (line s) := rfl
  rw [contactEffect, Board.contact, scan_seek, hlines]
  rcases hseek : seek c.mUrl.urlHost (s.items.map (line s)) with e | _ | i
  · rfl
  · by_cases he : m.exptime > 0
    · rcases ha : a.homeClone with _ | _ <;>
        simp [Except.map, he, ← board_dump, board_register h₁]
    · simp [Except.map, he, board_dump]
  · have hlt : i < s.items.length := by simpa using seek_lt hseek
    have hi := List.getElem?_eq_getElem hlt
    by_cases he : m.exptime > 0
    · simp [Except.map, he, hi, ← board_dump, board_refresh h₁ hi]
    · simp [Except.map, he, hi, ← board_dump, board_detach h₁ hi]

theorem endpDumpList_board (h : Inv s) :
    endpDumpList.run s = .ok ((board s).dump, s.used 1) := by
  rw [endpDumpList_run fun p hp => (h.live p hp).not_released, board_dump]

theorem handler_board (h : Inv s) (a : Allocs) (sip : Option Sip) :
    ((registerHandler a sip).run s).map (fun r => (r.1, board r.2)) =
      (Board.handler a sip).run (board s) := by
  rcases sip with _ | m
  · rfl
  change _ = Board.handler a (some m) (board s)
  dsimp only [Board.handler]
  rcases hmeth : m.sipRequest.bind (·.rqMethodName) with _ | name
  · have hrun : (registerHandler a (some m)).run s =
        .ok (⟨.success, [.internalServerError], none⟩, s) := by simp [registerHandler, hmeth]
    rw [hrun]
    rfl
  rw [Option.isNone_some, if_neg (by simp)]
  rcases hto : m.sipTo with _ | sipTo
  · have hrun : (registerHandler a (some m)).run s = .error .nullPointer := by
      simp [registerHandler, hmeth, hto]
    rw [hrun]
    rfl
  dsimp only
  by_cases hbad : sipTo.aUrl.urlUser.isNone ∨ sipTo.aUrl.urlHost.isNone
  · have hrun : (registerHandler a (some m)).run s =
        .ok (⟨.success, [.unauthorized], none⟩, s) := by
      simp only [Option.isNone_iff_eq_none] at hbad
      simp [registerHandler, hmeth, hto, hbad]
    rw [hrun, if_pos hbad]
    rfl
  rw [if_neg hbad]
  rcases hc : m.sipContact with _ | c
  · have hrun : (registerHandler a (some m)).run s = .error .nullPointer := by
      simp only [Option.isNone_iff_eq_none] at hbad
      simp [registerHandler, hmeth, hto, hbad, hc]
    rw [hrun]
    rfl
  · have hm : m.Accepted := by
      simp only [not_or, Bool.not_eq_true, Option.isNone_eq_false_iff] at hbad
      exact ⟨by rw [hmeth]; rfl, sipTo, hto, hbad⟩
    rw [registerHandler_accepted h hm hc]
    exact contactEffect_board h

theorem views_board (i : Allocs × Option Sip) :
    Proc.Views Inv board (registerHandler i.1 i.2) (Board.handler i.1 i.2) where
  run _ h := handler_board h i.1 i.2
  keeps _ r _ h hr := h.step (i := i) ⟨r, hr⟩

/-- Whatever is requested and whatever fails, a registrar answers, crashes and lists its end points
as the board does. -/
theorem registrar_observed (is : List (Allocs × Option Sip)) :
    ((is.mapM fun i => registerHandler i.1 i.2).run Store.init).map
        (fun r => (r.1, board r.2)) =
      (is.mapM fun i => Board.handler i.1 i.2).run .init :=
  (Proc.Views.mapM views_board is).run Store.init Inv.init

/-! Requests that are not answered with a 200 -/

def granted (responses : List Response) : Bool := responses.any fun
  | .ok _ _ => true
  | _ => false

theorem contact_refused {b b' : Board} {r : Handled}
    (h : b.contact a m c = .ok (r, b')) (hr : granted r.sent = false) : b' = b := by
  have hanswer : ∀ shown, granted (answer m c shown).sent = true := fun _ => rfl
  rw [Board.contact] at h
  rcases hs : seek c.mUrl.urlHost b.lines with e | _ | i
  · rw [hs] at h
    cases h
  · rw [hs] at h
    simp only [Except.map] at h
    split_ifs at h <;> cases h
    · exact absurd hr (by simp [hanswer])
    · rfl
    · exact absurd hr (by simp [hanswer])
  · rw [hs] at h
    cases h
    exact absurd hr (by simp [hanswer])

theorem handler_refused {sip : Option Sip} {b b' : Board} {r : Handled}
    (h : (Board.handler a sip).run b = .ok (r, b')) (hr : granted r.sent = false) : b' = b := by
  rcases sip with _ | m
  · cases h
    rfl
  change Board.handler a (some m) b = _ at h
  dsimp only [Board.handler] at h
  split_ifs at h
  · cases h
    rfl
  rcases hto : m.sipTo with _ | sipTo
  · rw [hto] at h
    cases h
  rw [hto] at h
  dsimp only at h
  split_ifs at h
  · cases h
    rfl
  rcases hc : m.sipContact with _ | c
  · rw [hc] at h
    cases h
  · rw [hc] at h
    exact contact_refused h hr

/-- A request that is not answered with a 200 might as well not have come: without all of these the
others are answered the same, and the end points are the same. -/
theorem refused_silent {is : List (Allocs × Option Sip)} {rs : List Handled}
    (h : (is.mapM fun i => registerHandler i.1 i.2).run Store.init = .ok (rs, s)) :
    let kept := (is.zip rs).filter fun x => granted x.2.sent
    ∃ t, ((kept.map Prod.fst).mapM fun i => registerHandler i.1 i.2).run Store.init =
      .ok (kept.map Prod.snd, t) ∧ board t = board s := by
  intro kept
  have hboard := (Proc.Views.mapM views_board is).run Store.init Inv.init
  rw [h] at hboard
  have hkept := Proc.mapM_kept (g := fun r => granted r.sent)
    (fun _ _ _ _ hrun => handler_refused hrun) hboard.symm
  rw [← (Proc.Views.mapM views_board (kept.map Prod.fst)).run Store.init Inv.init] at hkept
  rcases hrun : ((kept.map Prod.fst).mapM fun i => registerHandler i.1 i.2).run Store.init
    with e | ⟨rs', t⟩
  · rw [hrun] at hkept
    cases hkept
  · rw [hrun] at hkept
    obtain ⟨rfl, ht⟩ := Prod.mk.inj (Except.ok.inj hkept)
    exact ⟨t, hrun, ht⟩

theorem refused_silent_first :
    let is : List (Allocs × Option Sip) := [(.all, none), (.all, some (.request contactA 300))]
    let rs : List Handled := [⟨.success, [.internalServerError], none⟩,
      ⟨.success, [.trying, .ok (some contactA) "300"],
        some [(some (.ofBytes [97]), some (.ofBytes [49]))]⟩]
    ∃ s, (is.mapM fun i => registerHandler i.1 i.2).run Store.init = .ok (rs, s) ∧
      ∃ t, (is.tail.mapM fun i => registerHandler i.1 i.2).run Store.init = .ok (rs.tail, t) ∧
        board t = board s := by
  intro is rs
  have hview := (Proc.Views.mapM views_board is).run Store.init Inv.init
  have hboard : (is.mapM fun i => Board.handler i.1 i.2).run (board Store.init) =
      .ok (rs, ⟨true, [(some (.ofBytes [49]), some (.ofBytes [97]))]⟩) := rfl
  rw [hboard] at hview
  rcases h : (is.mapM fun i => registerHandler i.1 i.2).run Store.init with e | ⟨rs', s⟩
  · rw [h] at hview
    cases hview
  · rw [h] at hview
    obtain ⟨rfl, -⟩ := Prod.mk.inj (Except.ok.inj hview)
    exact ⟨s, h, refused_silent h⟩

end Evsip.Register
