import Evsip.Config.Dump
import Evsip.Config.Terminated

/-! The URI the user agent listens to, made of two options. The address is read as a string, which
goes on in the port and the user agent when nothing ends it in its array. -/

namespace Evsip.Core
open CLib Config

def uriText (address : List UInt8) (port : Int) : List UInt8 :=
  bytes "sip:" ++ address ++ 58 :: formatD port ++ bytes ";transport=*"

/-- `uri` of `evsip_init`, in its buffer of 256 bytes. -/
def listenUri (c : ConfigCtx) : List UInt8 :=
  (uriText (c.shown .localIpAddress) (c.integer .localPort)).take 255

variable {c c' : ConfigCtx} {s : Str64} {address address' v : List UInt8} {port port' : Int}

theorem formatD_injective : Function.Injective formatD := fun m n h => by
  have hnum := congrArg numeral h
  rw [numeral_formatD, numeral_formatD] at hnum
  exact Option.some.inj hnum

theorem colon_notMem_formatD : (58 : UInt8) ∉ formatD port := fun h => by
  rcases formatD_ordinary h with h | h
  · exact absurd h (by decide)
  · exact absurd h (by decide)

theorem append_cons_inj {a a' b b' : List UInt8} {x : UInt8} (h : x ∉ b) (h' : x ∉ b') :
    a ++ x :: b = a' ++ x :: b' ↔ a = a' ∧ b = b' := by
  refine ⟨fun heq => ?_, fun ⟨ha, hb⟩ => by rw [ha, hb]⟩
  have hrev : b.reverse ++ x :: a.reverse = b'.reverse ++ x :: a'.reverse := by
    simpa using congrArg List.reverse heq
  have hall : ∀ l : List UInt8, x ∉ l → ∀ y ∈ l.reverse, decide (y ≠ x) = true := fun l hl y hy =>
    decide_eq_true (ne_of_mem_of_not_mem (List.mem_reverse.1 hy) hl)
  have htake := congrArg (List.takeWhile (· ≠ x)) hrev
  rw [List.takeWhile_append_of_pos (hall b h), List.takeWhile_append_of_pos (hall b' h'),
    List.takeWhile_cons_of_neg (by simp), List.takeWhile_cons_of_neg (by simp), List.append_nil,
    List.append_nil] at htake
  rw [htake] at hrev
  exact ⟨List.reverse_injective (List.cons.inj (List.append_cancel_left hrev)).2,
    List.reverse_injective htake⟩

theorem uriText_inj : uriText address port = uriText address' port' ↔
    address = address' ∧ port = port' := by
  rw [uriText, uriText, List.append_left_inj, List.append_assoc, List.append_assoc,
    List.append_right_inj, append_cons_inj colon_notMem_formatD colon_notMem_formatD,
    formatD_injective.eq_iff]

theorem uriText_length : (uriText address port).length =
    address.length + (formatD port).length + 17 := by
  have hsip : (bytes "sip:").length = 4 := by decide
  have htransport : (bytes ";transport=*").length = 12 := by decide
  simp only [uriText, List.length_append, List.length_cons, hsip, htransport]
  omega

theorem intBytes_length (n : Int) : (intBytes n).length = 4 := rfl

theorem behind_length : (c.behind .localIpAddress).length = 80 := by
  simp only [ConfigCtx.behind, List.length_append, intBytes_length, (c.string .userAgent).length_eq]
  rfl

theorem shown_length : (c.shown .localIpAddress).length ≤ 144 := by
  have hle := (List.takeWhile_prefix (l := (c.string .localIpAddress).bytes ++
    c.behind .localIpAddress) (· ≠ 0)).length_le
  rwa [List.length_append, (c.string .localIpAddress).length_eq, behind_length] at hle

theorem listenUri_eq (hp : IsInt (c.integer .localPort)) :
    listenUri c = uriText (c.shown .localIpAddress) (c.integer .localPort) := by
  refine List.take_of_length_le ?_
  have hport := formatD_length hp
  have haddress := shown_length (c := c)
  rw [uriText_length]
  omega

theorem listenUri_inj (h : (c.string .localIpAddress).Terminated)
    (h' : (c'.string .localIpAddress).Terminated) (hp : IsInt (c.integer .localPort))
    (hp' : IsInt (c'.integer .localPort)) : listenUri c = listenUri c' ↔
      (c.string .localIpAddress).text = (c'.string .localIpAddress).text ∧
        c.integer .localPort = c'.integer .localPort := by
  rw [listenUri_eq hp, listenUri_eq hp', shown_eq h, shown_eq h', uriText_inj]

theorem listenUri_inj_ports :
    let c := (configInit .zero none).2
    let c' := c.setInteger .localPort 5061
    listenUri c = listenUri c' ↔ (c.string .localIpAddress).text =
      (c'.string .localIpAddress).text ∧ c.integer .localPort = c'.integer .localPort :=
  listenUri_inj (by decide +kernel) (by decide +kernel) (by decide) (by decide)

variable {fopen : CString → Option (List UInt8)} {beyond : Nat → Nat → UInt8} {path : Option CString}

/-- The address and the port that a file asks for, or those of the program. -/
def askedAddress (content : Option (List UInt8)) : List UInt8 :=
  (lastValue (bytes "local_ip_address") (entries content)).getD defLocalAddr
def askedPort (content : Option (List UInt8)) : Int :=
  ((lastValue (bytes "local_port") (entries content)).map atoi).getD defLocalPort

abbrev parsed (fopen : CString → Option (List UInt8)) (beyond : Nat → Nat → UInt8) (c : ConfigCtx)
    (path : Option CString) : ConfigCtx :=
  (configStartParse fopen beyond (configInit c path).2).2.config

theorem isInt_askedPort (content : Option (List UInt8)) : IsInt (askedPort content) := by
  rw [askedPort]
  rcases lastValue (bytes "local_port") (entries content) with _ | v
  · decide
  · exact isInt_atoi v

theorem parsed_port : (parsed fopen beyond c path).integer .localPort =
    askedPort (fopen (confPath path)) := by
  have hport := congrArg (Options.integer · .localPort)
    (configStartParse_options fopen beyond c path)
  rw [foldl_set_integer] at hport
  exact hport

theorem parsed_address : ((parsed fopen beyond c path).string .localIpAddress).text =
    (askedAddress (fopen (confPath path))).take 64 := by
  have haddress := congrArg (Options.string · .localIpAddress)
    (configStartParse_options fopen beyond c path)
  rw [foldl_set_string, configInit_string] at haddress
  refine haddress.trans ?_
  have hname : slotName (.string64 .localIpAddress) = bytes "local_ip_address" := rfl
  rw [askedAddress, hname]
  rcases lastValue (bytes "local_ip_address") (entries (fopen (confPath path))) with _ | v <;> rfl

theorem fits_iff {content : Option (List UInt8)} :
    Fits content .localIpAddress ↔ (askedAddress content).length ≤ 63 := by
  have hname : slotName (.string64 .localIpAddress) = bytes "local_ip_address" := rfl
  rw [Fits, askedAddress, hname]
  rcases lastValue (bytes "local_ip_address") (entries content) with _ | v
  · exact iff_of_true (fun v hv => by cases hv) (by decide)
  · simp

/-- The program listens to what the file asks for exactly when the address has room for its
terminator, or goes on, from its 65th byte, as the memory behind its array does. -/
theorem listenUri_asked_iff (fopen : CString → Option (List UInt8)) (beyond : Nat → Nat → UInt8)
    (c : ConfigCtx) (path : Option CString) :
    let asked := askedAddress (fopen (confPath path))
    let c' := (configStartParse fopen beyond (configInit c path).2).2.config
    listenUri c' = uriText asked (askedPort (fopen (confPath path))) ↔
      asked.length ≤ 63 ∨ asked.drop 64 = (c'.behind .localIpAddress).takeWhile (· ≠ 0) := by
  intro asked c'
  have hport : c'.integer .localPort = askedPort (fopen (confPath path)) := parsed_port
  have htext : (c'.string .localIpAddress).text = asked.take 64 := parsed_address
  have hterm : (c'.string .localIpAddress).Terminated ↔ asked.length ≤ 63 :=
    (string_terminated_iff _).trans fits_iff
  rw [listenUri_eq (hport ▸ isInt_askedPort _), hport, uriText_inj, and_iff_left rfl]
  by_cases hlen : asked.length ≤ 63
  · rw [shown_eq (hterm.2 hlen), htext]
    exact iff_of_true (List.take_of_length_le (hlen.trans (by decide))) (.inl hlen)
  · have hno : ¬ (c'.string .localIpAddress).Terminated := mt hterm.1 hlen
    have hall : (c'.string .localIpAddress).bytes = asked.take 64 := by
      rw [← htext, Str64.text, List.takeWhile_eq_self_iff.2]
      exact fun x hx => decide_eq_true (ne_of_mem_of_not_mem hx hno)
    rw [shown_append hno, hall, or_iff_right hlen]
    have hsplit := List.take_append_drop 64 asked
    constructor
    · intro h
      exact List.append_cancel_left (hsplit.trans h.symm)
    · intro h
      rw [← h, hsplit]

end Evsip.Core
