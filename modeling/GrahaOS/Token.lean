import Mathlib.Tactic

/-!
# Capability tokens

`kernel/cap/token.h`: the 64-bit token word, the rights and flag bits that the modelled code tests,
the pid sentinels and the error codes. A token packs a 32-bit generation, a 24-bit object index and
8 flag bits.
-/

namespace GrahaOS.Token

open BitVec

/-- `cap_token_t`. -/
structure CapToken where
  raw : BitVec 64
deriving DecidableEq

def capTokenPack (gen : BitVec 32) (idx : ℕ) (flags : BitVec 8) : CapToken :=
  ⟨(gen.setWidth 64 <<< 32) |||
    ((BitVec.ofNat 64 idx &&& 0xFFFFFF#64) <<< 8) ||| flags.setWidth 64⟩

def capTokenGen (t : CapToken) : BitVec 32 := (t.raw >>> 32).setWidth 32

def capTokenIdx (t : CapToken) : ℕ := ((t.raw >>> 8) &&& 0xFFFFFF#64).toNat

def capTokenIsNull (t : CapToken) : Bool := capTokenIdx t == 0

/-- The packed word as a number: three disjoint fields. -/
lemma capTokenPack_toNat (gen : BitVec 32) (idx : ℕ) (flags : BitVec 8) :
    (capTokenPack gen idx flags).raw.toNat =
      gen.toNat * 2 ^ 32 + (idx % 2 ^ 24) * 2 ^ 8 + flags.toNat := by
  have hg := gen.isLt
  have hf := flags.isLt
  have hgen : gen.toNat <<< 32 < 2 ^ 64 := by
    rw [Nat.shiftLeft_eq]
    omega
  have hidx : (idx % 2 ^ 24) <<< 8 < 2 ^ 64 := by
    rw [Nat.shiftLeft_eq]
    omega
  have hand : (idx % 2 ^ 64) &&& 16777215 = idx % 2 ^ 24 := by
    rw [show 16777215 = 2 ^ 24 - 1 by norm_num, Nat.and_two_pow_sub_one_eq_mod]
    omega
  have hlow : (idx % 2 ^ 24) <<< 8 ||| flags.toNat = (idx % 2 ^ 24) * 2 ^ 8 + flags.toNat := by
    rw [← Nat.shiftLeft_add_eq_or_of_lt hf, Nat.shiftLeft_eq]
  have hlt : (idx % 2 ^ 24) * 2 ^ 8 + flags.toNat < 2 ^ 32 := by omega
  have hall : gen.toNat <<< 32 ||| ((idx % 2 ^ 24) * 2 ^ 8 + flags.toNat) =
      gen.toNat * 2 ^ 32 + ((idx % 2 ^ 24) * 2 ^ 8 + flags.toNat) := by
    rw [← Nat.shiftLeft_add_eq_or_of_lt hlt, Nat.shiftLeft_eq]
  simp only [capTokenPack, toNat_or, toNat_shiftLeft, toNat_setWidth,
    toNat_and, toNat_ofNat, Nat.or_assoc]
  rw [Nat.mod_eq_of_lt (show 16777215 < 2 ^ 64 by norm_num), hand,
    Nat.mod_eq_of_lt (show gen.toNat < 2 ^ 64 by omega),
    Nat.mod_eq_of_lt (show flags.toNat < 2 ^ 64 by omega),
    Nat.mod_eq_of_lt hgen, Nat.mod_eq_of_lt hidx, hlow, hall, Nat.add_assoc]

@[simp] theorem capTokenGen_pack (gen : BitVec 32) (idx : ℕ) (flags : BitVec 8) :
    capTokenGen (capTokenPack gen idx flags) = gen := by
  have hg := gen.isLt
  have hf := flags.isLt
  apply eq_of_toNat_eq
  rw [capTokenGen, toNat_setWidth, toNat_ushiftRight, capTokenPack_toNat, Nat.shiftRight_eq_div_pow]
  omega

theorem capTokenIdx_pack (gen : BitVec 32) {idx : ℕ} (flags : BitVec 8) (h : idx < 2 ^ 24) :
    capTokenIdx (capTokenPack gen idx flags) = idx := by
  have hf := flags.isLt
  rw [capTokenIdx, toNat_and, toNat_ushiftRight, capTokenPack_toNat,
    Nat.shiftRight_eq_div_pow, show (0xFFFFFF#64).toNat = 2 ^ 24 - 1 by decide,
    Nat.and_two_pow_sub_one_eq_mod]
  omega

/-- `CAP_KIND_*`. -/
inductive CapKind
  | none | can | file | proc | channel | vmo | snapshot | wasmInstance | stream | fsSnapshot
  | driverRegistrar | irqChannel | mmioRegion | transaction | system | console
deriving DecidableEq

/-! `RIGHT_*`: the bits the modelled code asks for. -/

def rightRead : BitVec 64 := 0x1#64
def rightWrite : BitVec 64 := 0x2#64
def rightDerive : BitVec 64 := 0x8#64
def rightRevoke : BitVec 64 := 0x10#64
def rightInspect : BitVec 64 := 0x20#64
def rightSend : BitVec 64 := 0x200#64
def rightRecv : BitVec 64 := 0x400#64
def rightsAll : BitVec 64 := BitVec.allOnes 64

/-! `CAP_FLAG_*`. -/

def flagPublic : BitVec 8 := 0x01#8
def flagEagerRevoke : BitVec 8 := 0x02#8
def flagShimEphemeral : BitVec 8 := 0x04#8
def flagImmortal : BitVec 8 := 0x08#8
def flagInheritable : BitVec 8 := 0x10#8
def flagCascadeTruncated : BitVec 8 := 0x20#8
def flagRecursiveInherit : BitVec 8 := 0x40#8

/-- `flags & f` as a truth value. -/
def hasFlag (flags f : BitVec 8) : Bool := flags &&& f != 0#8

/-! Pid sentinels. -/

def pidPublic : ℤ := 0xFFFF
def pidKernel : ℤ := -1
def pidNone : ℤ := -1

/-- `MAX_TASKS`: a spawn whose new task id would reach it is refused. -/
def maxTasks : ℕ := 10240

/-- The `CAP_V2_*` error returns of the modelled functions. -/
inductive CapError
  | eperm | erevoked | enomem | efault | einval | epledge | ebadf | eagain | ebusy | epipe
  | eprototype | efrozen
deriving DecidableEq

def CapError.code : CapError → ℤ
  | .eperm => -1
  | .erevoked => -2
  | .enomem => -3
  | .efault => -4
  | .einval => -5
  | .epledge => -7
  | .ebadf => -9
  | .eagain => -11
  | .ebusy => -16
  | .epipe => -32
  | .eprototype => -71
  | .efrozen => -128

end GrahaOS.Token
