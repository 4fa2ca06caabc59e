import Evsip.Lib.CString
import Evsip.Types

/-! The configuration object and the names of its options. -/

namespace Evsip.Config
open CLib

structure Str64 where
  bytes : List UInt8
  length_eq : bytes.length = 64
  deriving DecidableEq

namespace Str64

def zero : Str64 := ⟨.replicate 64 0, rfl⟩

/-- The string in the array, or all of it when nothing ends it there. -/
def text (s : Str64) : List UInt8 := s.bytes.takeWhile (· ≠ 0)

def Terminated (s : Str64) : Prop := 0 ∈ s.bytes

instance (s : Str64) : Decidable s.Terminated := inferInstanceAs (Decidable (_ ∈ _))

def strcpy (d : Str64) (s : List UInt8) (h : s.length < 64) : Str64 where
  bytes := s ++ 0 :: d.bytes.drop (s.length + 1)
  length_eq := by
    have := d.length_eq
    simp
    omega

end Str64

inductive StringOption
  | localIpAddress
  | userAgent
  deriving DecidableEq

inductive IntOption
  | localPort
  | maxRegExpires
  | minRegExpires
  deriving DecidableEq

/-- The type of an option and its place in the configuration. -/
inductive Slot
  | string64 (o : StringOption)
  | integer (o : IntOption)
  deriving DecidableEq

/-- `struct evsip_config_str`; an option is found by its place. -/
structure ConfigCtx where
  filePath : Option CString
  string : StringOption → Str64
  integer : IntOption → Int

def ConfigCtx.setString (c : ConfigCtx) (o : StringOption) (v : Str64) : ConfigCtx :=
  { c with string := fun o' => if o' = o then v else c.string o' }

def ConfigCtx.setInteger (c : ConfigCtx) (o : IntOption) (v : Int) : ConfigCtx :=
  { c with integer := fun o' => if o' = o then v else c.integer o' }

def configMapping : List (List UInt8 × Slot) :=
  [(bytes "local_ip_address", .string64 .localIpAddress),
    (bytes "local_port", .integer .localPort),
    (bytes "user_agent", .string64 .userAgent),
    (bytes "max_reg_expire", .integer .maxRegExpires),
    (bytes "min_reg_expire", .integer .minRegExpires)]

def defFile : CString := .ofBytes (bytes "/etc/evsip.conf")
def defUsrAgent : List UInt8 := bytes "EasyVisionSipTestServer(EvSip)"
def defLocalPort : Int := 5060
def defLocalAddr : List UInt8 := bytes "127.0.0.1"

def ConfigCtx.zero : ConfigCtx := ⟨none, fun _ => .zero, fun _ => 0⟩

def intBytes (n : Int) : List UInt8 :=
  let w := UInt32.ofInt n
  [w.toUInt8, (w >>> 8).toUInt8, (w >>> 16).toUInt8, (w >>> 24).toUInt8]

/-- What lies behind the array of a string option: the fields after it, and the four bytes that the
alignment of the object leaves, zero in a static one. -/
def ConfigCtx.behind (c : ConfigCtx) : StringOption → List UInt8
  | .localIpAddress => intBytes (c.integer .localPort) ++ (c.string .userAgent).bytes ++
    intBytes (c.integer .maxRegExpires) ++ intBytes (c.integer .minRegExpires) ++ [0, 0, 0, 0]
  | .userAgent => intBytes (c.integer .maxRegExpires) ++ intBytes (c.integer .minRegExpires) ++
    [0, 0, 0, 0]

/-- `%s` of a string option, which nothing stops at the end of its array. -/
def ConfigCtx.shown (c : ConfigCtx) (o : StringOption) : List UInt8 :=
  ((c.string o).bytes ++ c.behind o).takeWhile (· ≠ 0)

def confPath : Option CString → CString
  | none => defFile
  | some path => if path.bytes = [] then defFile else path

def configInit (c : ConfigCtx) (pFilePath : Option CString) : Code × ConfigCtx :=
  let c := { c with filePath := some (confPath pFilePath) }
  let c := c.setInteger .localPort defLocalPort
  let c := c.setString .localIpAddress
    ((c.string .localIpAddress).strcpy defLocalAddr (by decide))
  let c := c.setString .userAgent ((c.string .userAgent).strcpy defUsrAgent (by decide))
  (.success, c)

end Evsip.Config
