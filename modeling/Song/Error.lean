import Song.Lib.Words

/-!
# Exceptions and error codes (`error.hpp`)

`std::string` is a byte string (`Str`). An `Exn` is what a `throw` carries: one
of the library's exception classes with its `what()` text, any other
`std::exception`, or a value not derived from `std::exception`, which a
`catch (const std::exception&)` lets through.
-/

namespace Song

export Words (Bytes leBytes leNat overwrite)

/-- A `std::string`. -/
abbrev Str := Bytes

instance : LawfulBEq Str := inferInstance

/-- The bytes of an ASCII literal. -/
def lit (s : String) : Str := s.toList.map fun c => UInt8.ofNat c.toNat

/-- `std::to_string`. -/
def toStr (n : Int) : Str := lit (toString n)

inductive Exn where
  | runtimeError (what : Str)
  | protocolError (what : Str)
  | serviceError (what : Str)
  | versionMismatchError (what : Str)
  | securityError (msg : Str)
  /-- Not derived from `std::exception`. -/
  | foreign (tag : Nat)
  deriving DecidableEq, Repr

namespace Exn

/-- Caught by `catch (const std::exception& e)`. -/
def isStd : Exn → Bool
  | foreign _ => false
  | _ => true

def what : Exn → Str
  | runtimeError w | protocolError w | serviceError w | versionMismatchError w => w
  | securityError msg => lit "Security error: " ++ msg
  | foreign _ => []

end Exn

/-- The error codes the runtime sends. -/
inductive ErrorCode where
  | unknownService
  | unknownMethod
  | objectNotFound
  | objectCreationFailed
  | propertyError
  deriving DecidableEq, Repr

def ErrorCode.toU16 : ErrorCode → UInt16
  | unknownService => 2
  | unknownMethod => 3
  | objectNotFound => 300
  | objectCreationFailed => 301
  | propertyError => 302

end Song
