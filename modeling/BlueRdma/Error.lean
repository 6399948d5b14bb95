import Mathlib.Logic.Basic

namespace BlueRdma

/-- The kinds of I/O errors the driver raises itself; errors of the operating system are passed
on with their text. -/
inductive IoError
  | outOfMemory
  | notFound
  | other (msg : String)
  deriving DecidableEq

inductive RdmaError
  | invalidInput (msg : String)
  | notFound (msg : String)
  | resourceExhausted (msg : String)
  | memoryError (msg : String)
  | qpError (msg : String)
  | unimplemented (msg : String)
  | ioError (e : IoError)
  deriving DecidableEq

/-- What a call leaves behind and what it returns; there is no result when it panicked. -/
structure Call (σ ε α : Type) where
  next : σ
  result : Option (Except ε α)

end BlueRdma
