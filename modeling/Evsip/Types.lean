/-! Return codes shared by every part of the server. -/

namespace Evsip

inductive Code
  | success
  | errorUnknown
  | errorOutOfResources
  | errorBadParam
  | errorInvalidHandle
  | errorNotFound
  | errorInsufficientBuffer
  deriving DecidableEq, Repr

end Evsip
