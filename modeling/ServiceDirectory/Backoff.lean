import ServiceDirectory.Text.Digits

/-! # Backoff

The delay before attempt `n` is the base doubled `n` times, though at most 32 times, and never more
than the cap. Numbers are of 64 bits; a product beyond them counts as the greatest.
-/

namespace ServiceDirectory

structure Backoff where
  baseMs : UInt64
  maxMs : UInt64
  deriving DecidableEq, Inhabited

namespace Backoff

def standard : Backoff := ⟨200, 5000⟩

inductive Fault
  | zeroBase
  | maxBelowBase (max base : UInt64)
  deriving DecidableEq

def Fault.message : Fault → String
  | zeroBase => "base_delay_ms must be greater than 0"
  | maxBelowBase max base =>
    "max_delay_ms (" ++ Text.natText max.toNat ++ ") must not be less than base_delay_ms (" ++
      Text.natText base.toNat ++ ")"

def check (b : Backoff) : Except Fault Unit :=
  if b.baseMs = 0 then .error .zeroBase
  else if b.maxMs < b.baseMs then .error (.maxBelowBase b.maxMs b.baseMs)
  else .ok ()

def saturatingMul (a b : UInt64) : UInt64 :=
  if a.toNat * b.toNat < UInt64.size then a * b else UInt64.ofNat (UInt64.size - 1)

def delayMs (b : Backoff) (attempt : UInt32) : UInt64 :=
  let factor := (1 : UInt64) <<< (min attempt 32).toUInt64
  min (saturatingMul b.baseMs factor) b.maxMs

end Backoff

end ServiceDirectory
