import HabrDigest.Lib.Strto

/-!
# Settings from the environment

`ReadUint32Env` and `ReadDoubleEnv`, of which every `config.cpp` has its own copy.  A
variable that is not set, or that is not a number, gives the fallback.  The
conversion of `std::stoul` to 32 bits is a plain cast.  A setting that must not be zero is
replaced by a default where it is (`nonzeroOr`).
-/

namespace HabrDigest
namespace Common

/-- `std::getenv`. -/
abbrev Env := Bytes → Option Bytes

/-- `ReadUint32Env`. -/
def readUint32Env (env : Env) (name : Bytes) (fallback : UInt32) : UInt32 :=
  match env name with
  | none => fallback
  | some raw =>
    match Strto.stoul raw with
    | some n => n.toUInt32
    | none => fallback

/-- `ReadDoubleEnv`. -/
def readDoubleEnv (r : Rounding) (env : Env) (name : Bytes) (fallback : Double) : Double :=
  match env name with
  | none => fallback
  | some raw => (Strto.stod r raw).getD fallback

/-- A string that is set, or else the default. -/
def readStringEnv (env : Env) (name fallback : Bytes) : Bytes := (env name).getD fallback

/-- A setting, or a default where it is zero. -/
def nonzeroOr (fallback x : UInt32) : UInt32 := if x = 0 then fallback else x

theorem nonzeroOr_pos {fallback : UInt32} (h : 0 < fallback.toNat) (x : UInt32) :
    0 < (nonzeroOr fallback x).toNat := by
  unfold nonzeroOr
  split
  · exact h
  · rename_i hx
    exact Nat.pos_of_ne_zero fun h0 => hx (UInt32.toNat_inj.mp h0)

end Common
end HabrDigest
