import Br2Efinix.Emmc.UBootPio
import Br2Efinix.Lib.Fields
import Br2Efinix.SdHost.SendCmd

/-!
# The capacity of an SD card

The way of a CSD register through `efx_sdhost_send_cmd` and the patched `mmc_startup`. The response registers hold it
as the eMMC driver reads them: without its lowest byte, and with the end of it in register 0.

* `send_csd`: the words that the SD driver delivers are the registers in their order.
* `converted_words`, `converted_capacity`: as the eMMC driver converts them they are the words of the CSD, with which
  the code before the patch gets every capacity right.
* `capacity_right_iff`: **the capacity is right** exactly where what the code takes for the size is the size followed
  by ones, or the other way round, as many as the powers of two differ; for version 1 the block length has to be
  there twice.
* `balanced_v2`: what that says of a card of version 2.
-/

namespace Br2Efinix.SdHost

/-! ## The card -/

/-- `CSD_STRUCTURE` of SD cards. -/
inductive Version
  | v1
  | v2
  deriving DecidableEq, Repr

def Version.number : Version → ℕ
  | v1 => 0
  | v2 => 1

/-- A CSD register of an SD card. -/
structure SdCsd where
  raw : BitVec 128
  version : Version
  structure_eq : field raw.toNat 126 2 = version.number

namespace SdCsd

variable (csd : SdCsd)

/-- `C_SIZE`. -/
def cSize : ℕ :=
  match csd.version with
  | .v1 => field csd.raw.toNat 62 12
  | .v2 => field csd.raw.toNat 48 22

/-- `BLOCK_LEN`: from `READ_BL_LEN` in version 1, and 512 in version 2. -/
def blockLen : ℕ :=
  match csd.version with
  | .v1 => 2 ^ field csd.raw.toNat 80 4
  | .v2 => 512

/-- The capacity in bytes by the SD specification: of version 1 with `C_SIZE_MULT` and `BLOCK_LEN`, of version 2 in
units of 512 KiB. -/
def capacity : ℕ :=
  match csd.version with
  | .v1 => (csd.cSize + 1) * 2 ^ (field csd.raw.toNat 47 3 + 2) * csd.blockLen
  | .v2 => (csd.cSize + 1) * (512 * 1024)

end SdCsd

/-! ## The controller and the driver -/

/-- The response registers after the CSD has been sent: the three lower ones, and the top 24 bits. -/
def registers (raw : BitVec 128) (upper : BitVec 8) : ℕ → BitVec 32
  | 0 => raw.extractLsb' 8 32
  | 1 => raw.extractLsb' 40 32
  | 2 => raw.extractLsb' 72 32
  | _ => upper ++ raw.extractLsb' 104 24

def MMC_RSP_CRC : BitVec 32 := 4#32

/-- The command for the CSD register, of the card `rca`. -/
def sendCsd (rca : BitVec 16) : MmcCmd :=
  { cmdidx := MMC_CMD_SEND_CSD, respType := MMC_RSP_PRESENT ||| MMC_RSP_136 ||| MMC_RSP_CRC
    cmdarg := rca.setWidth 32 <<< 16 }

/-- What `mmc_startup` uses of `struct mmc`. -/
structure Mmc where
  isSd : Bool
  highCapacity : Bool
  readBlLen : BitVec 32
  capacityUser : BitVec 64
  deriving DecidableEq, Repr

/-- The variables `csize` and `cmult` of `mmc_startup`. -/
def csize (highCapacity : Bool) (csd : ℕ → BitVec 32) : BitVec 64 :=
  if highCapacity then (((csd 1 &&& 0x3f#32) <<< 16) ||| ((csd 2 &&& 0xffff0000#32) >>> 16)).setWidth 64
  else (((csd 1 &&& 0x3ff#32) <<< 2) ||| ((csd 2 &&& 0xc0000000#32) >>> 30)).setWidth 64

def cmult (highCapacity : Bool) (csd : ℕ → BitVec 32) : BitVec 64 :=
  if highCapacity then 8#64 else ((csd 2 &&& 0x00038000#32) >>> 15).setWidth 64

/-- `(csize + 1) << (cmult + 2)`, times `factor`. -/
def capacityUser (highCapacity : Bool) (csd : ℕ → BitVec 32) (factor : BitVec 64) : BitVec 64 :=
  ((csize highCapacity csd + 1#64) <<< (cmult highCapacity csd + 2#64).toNat) * factor

/-- `1 << ((cmd.response[1] >> 16) & 0xf)`. -/
def blLen (csd : ℕ → BitVec 32) : BitVec 32 := 1#32 <<< ((csd 1 >>> 16) &&& 0xf#32).toNat

/-- The patched `mmc_startup`, from the response to `MMC_CMD_SEND_CSD` to the capacity. -/
def mmcStartup (mmc : Mmc) (csd : ℕ → BitVec 32) : Mmc :=
  { mmc with
    readBlLen := if mmc.isSd then (if mmc.highCapacity then 512#32 else blLen csd) else mmc.readBlLen
    -- the patch has 4 here instead of `read_bl_len`
    capacityUser := capacityUser mmc.highCapacity csd 4#64 }

/-- The words of a response. -/
def words (response : List (BitVec 32)) (i : ℕ) : BitVec 32 := response.getD i 0#32

/-! ## The property -/

/-- An SD card; version 2 is that of high-capacity cards. -/
def SdCsd.mmc (csd : SdCsd) (readBlLen : BitVec 32) (capacityUser : BitVec 64) : Mmc :=
  ⟨true, csd.version = .v2, readBlLen, capacityUser⟩

/-- The command succeeds, and `mmc_startup` gets the block length and the capacity of the card. -/
def CapacityRight (csd : SdCsd) (upper : BitVec 8) (a : Answers) (mode rca : BitVec 16) (readBlLen : BitVec 32)
    (capacityUser : BitVec 64) : Prop :=
  ∃ s, sendCmd { a with rsp := registers csd.raw upper } mode (sendCsd rca) none = some (0, s) ∧
    (mmcStartup (csd.mmc readBlLen capacityUser) (words s.response)).readBlLen.toNat = csd.blockLen ∧
    (mmcStartup (csd.mmc readBlLen capacityUser) (words s.response)).capacityUser.toNat = csd.capacity

/-- What the code takes for the size. -/
def SdCsd.seenSize (csd : SdCsd) : ℕ :=
  match csd.version with
  | .v1 => field csd.raw.toNat 40 10 * 2 ^ 2 + field csd.raw.toNat 102 2
  | .v2 => field csd.raw.toNat 40 6 * 2 ^ 16 + field csd.raw.toNat 88 16

/-- What the code takes for the size goes on with ones behind the size, or the other way round. -/
def SdCsd.Balanced (csd : SdCsd) : Prop :=
  match csd.version with
  | .v1 =>
    let seen := field csd.raw.toNat 87 3 + 2
    let real := field csd.raw.toNat 47 3 + field csd.raw.toNat 80 4
    field csd.raw.toNat 56 4 = field csd.raw.toNat 80 4 ∧
      if seen ≤ real then FollowedByOnes csd.seenSize csd.cSize (real - seen)
      else FollowedByOnes csd.cSize csd.seenSize (seen - real)
  | .v2 => FollowedByOnes csd.seenSize csd.cSize 7

/-! ## What the code computes -/

variable {csd : ℕ → BitVec 32}

theorem csize_high : (csize true csd).toNat = field (csd 1).toNat 0 6 * 2 ^ 16 + field (csd 2).toNat 16 16 := by
  have hlt : field (csd 1).toNat 0 6 < 2 ^ 6 := field_lt
  have hlt' : field (csd 2).toNat 16 16 < 2 ^ 16 := field_lt
  unfold csize
  rw [if_pos rfl, BitVec.toNat_setWidth, toNat_two_fields 6 rfl rfl (by decide)]
  exact Nat.mod_eq_of_lt (by omega)

theorem csize_low : (csize false csd).toNat = field (csd 1).toNat 0 10 * 2 ^ 2 + field (csd 2).toNat 30 2 := by
  have hlt : field (csd 1).toNat 0 10 < 2 ^ 10 := field_lt
  have hlt' : field (csd 2).toNat 30 2 < 2 ^ 2 := field_lt
  unfold csize
  rw [if_neg (by decide), BitVec.toNat_setWidth, toNat_two_fields 10 rfl rfl (by decide)]
  exact Nat.mod_eq_of_lt (by omega)

theorem cmult_low : (cmult false csd).toNat = field (csd 2).toNat 15 3 := by
  have hmult : ((csd 2 &&& 0x00038000#32) >>> 15).toNat = field (csd 2).toNat 15 3 := toNat_mask rfl
  have hlt : field (csd 2).toNat 15 3 < 2 ^ 3 := field_lt
  unfold cmult
  rw [if_neg (by decide), BitVec.toNat_setWidth, hmult]
  exact Nat.mod_eq_of_lt (by omega)

theorem csize_lt (csd : ℕ → BitVec 32) (high : Bool) : (csize high csd).toNat < 2 ^ 22 := by
  cases high with
  | true =>
    have hlt : field (csd 1).toNat 0 6 < 2 ^ 6 := field_lt
    have hlt' : field (csd 2).toNat 16 16 < 2 ^ 16 := field_lt
    rw [csize_high]
    omega
  | false =>
    have hlt : field (csd 1).toNat 0 10 < 2 ^ 10 := field_lt
    have hlt' : field (csd 2).toNat 30 2 < 2 ^ 2 := field_lt
    rw [csize_low]
    omega

theorem cmult_le (csd : ℕ → BitVec 32) (high : Bool) : (cmult high csd).toNat ≤ 8 := by
  cases high with
  | true => exact Nat.le_refl 8
  | false =>
    have hlt : field (csd 2).toNat 15 3 < 2 ^ 3 := field_lt
    rw [cmult_low]
    omega

/-- Nothing is lost in 64 bits. -/
theorem capacityUser_toNat (high : Bool) {factor : BitVec 64} (hfactor : factor.toNat ≤ 2 ^ 15) :
    (capacityUser high csd factor).toNat =
      ((csize high csd).toNat + 1) * 2 ^ ((cmult high csd).toNat + 2) * factor.toNat := by
  have hsize := csize_lt csd high
  have hmult := cmult_le csd high
  have hshift : (cmult high csd + 2#64).toNat = (cmult high csd).toNat + 2 := by
    rw [BitVec.toNat_add]
    exact Nat.mod_eq_of_lt (by show (cmult high csd).toNat + 2 < 2 ^ 64; omega)
  have hplus : (csize high csd + 1#64).toNat = (csize high csd).toNat + 1 := by
    rw [BitVec.toNat_add]
    exact Nat.mod_eq_of_lt (by show (csize high csd).toNat + 1 < 2 ^ 64; omega)
  -- a size below 2 ^ 22, shifted by 10 at most, and a factor of 2 ^ 15 at most
  have hpow : 2 ^ ((cmult high csd).toNat + 2) ≤ 2 ^ 10 := Nat.pow_le_pow_right (by decide) (by omega)
  have hprod : ((csize high csd).toNat + 1) * 2 ^ ((cmult high csd).toNat + 2) ≤ 2 ^ 22 * 2 ^ 10 :=
    Nat.mul_le_mul (by omega) hpow
  have hall : ((csize high csd).toNat + 1) * 2 ^ ((cmult high csd).toNat + 2) * factor.toNat ≤
      2 ^ 22 * 2 ^ 10 * 2 ^ 15 := Nat.mul_le_mul hprod hfactor
  unfold capacityUser
  rw [BitVec.toNat_mul, BitVec.toNat_shiftLeft, hshift, hplus, Nat.shiftLeft_eq,
    Nat.mod_eq_of_lt (Nat.lt_of_le_of_lt hprod (by decide))]
  exact Nat.mod_eq_of_lt (Nat.lt_of_le_of_lt hall (by decide))

theorem blLen_toNat : (blLen csd).toNat = 2 ^ field (csd 1).toNat 16 4 := by
  have hfield : ((csd 1 >>> 16) &&& 0xf#32).toNat = field (csd 1).toNat 16 4 := toNat_shift_mask rfl
  have hlt : field (csd 1).toNat 16 4 < 2 ^ 4 := field_lt
  have hpow : 2 ^ field (csd 1).toNat 16 4 ≤ 2 ^ 15 := Nat.pow_le_pow_right (by decide) (by omega)
  unfold blLen
  rw [hfield, BitVec.toNat_shiftLeft, Nat.shiftLeft_eq]
  show 1 * 2 ^ field (csd 1).toNat 16 4 % 2 ^ 32 = _
  rw [Nat.one_mul]
  exact Nat.mod_eq_of_lt (by omega)

/-! ## The driver's words -/

/-- **The words that the driver delivers** are the registers in their order. -/
theorem send_csd (a : Answers) (mode rca : BitVec 16) :
    ∃ s, sendCmd a mode (sendCsd rca) none = some (0, s) ∧ s.response = [a.rsp 0, a.rsp 1, a.rsp 2, a.rsp 3] := by
  have hpresent : hasBits MMC_RSP_PRESENT (sendCsd rca).respType = true := by
    show hasBits MMC_RSP_PRESENT (MMC_RSP_PRESENT ||| MMC_RSP_136 ||| MMC_RSP_CRC) = true
    decide
  have hlong : hasBits MMC_RSP_136 (sendCsd rca).respType = true := by
    show hasBits MMC_RSP_136 (MMC_RSP_PRESENT ||| MMC_RSP_136 ||| MMC_RSP_CRC) = true
    decide
  have hbusy : hasBits MMC_RSP_BUSY (sendCsd rca).respType = false := by
    show hasBits MMC_RSP_BUSY (MMC_RSP_PRESENT ||| MMC_RSP_136 ||| MMC_RSP_CRC) = false
    decide
  refine ⟨issue a mode (sendCsd rca) none (readWaitSdcmd a.line (Io.start a)).2, ?_, ?_⟩
  · unfold sendCmd MmcCmd.unsupported
    simp only [hbusy, never_busy, Bool.and_false, Bool.false_eq_true, if_false]
  · unfold issue readResponse
    simp only [hpresent, hlong, if_true]

/-- A field of a word that has come from the register. -/
theorem field_word (raw : BitVec 128) (b : ℕ) {lo len : ℕ} (h : lo + len ≤ 32) :
    field (raw.extractLsb' b 32).toNat lo len = field raw.toNat (b + lo) len := by
  rw [toNat_extract, field_field h]

variable {raw : BitVec 128} {factor : BitVec 64} {p q : ℕ}

/-- What is computed for version 1 from the words of the register at the bits `p` and `q`. -/
theorem capacity_v1 (hone : csd 1 = raw.extractLsb' p 32) (htwo : csd 2 = raw.extractLsb' q 32)
    (hfactor : factor.toNat ≤ 2 ^ 15) :
    (capacityUser false csd factor).toNat =
      (field raw.toNat p 10 * 2 ^ 2 + field raw.toNat (q + 30) 2 + 1) *
        2 ^ (field raw.toNat (q + 15) 3 + 2) * factor.toNat := by
  rw [capacityUser_toNat false hfactor, csize_low, cmult_low, hone, htwo, field_word _ p (by decide),
    field_word _ q (by decide), field_word _ q (by decide), Nat.add_zero p]

/-- The same for version 2. -/
theorem capacity_v2 (hone : csd 1 = raw.extractLsb' p 32) (htwo : csd 2 = raw.extractLsb' q 32)
    (hfactor : factor.toNat ≤ 2 ^ 15) :
    (capacityUser true csd factor).toNat =
      (field raw.toNat p 6 * 2 ^ 16 + field raw.toNat (q + 16) 16 + 1) * 2 ^ 10 * factor.toNat := by
  rw [capacityUser_toNat true hfactor, csize_high, hone, htwo, field_word _ p (by decide), field_word _ q (by decide),
    Nat.add_zero p]
  rfl

/-! ## The words as the eMMC driver converts them -/

/-- The first word, from the top 24 bits and the register below. -/
theorem converted_top (raw : BitVec 128) (upper : BitVec 8) :
    (((upper ++ raw.extractLsb' 104 24 : BitVec 32) &&& 0xFFFFFF#32) <<< 8) ||| (raw.extractLsb' 72 32 >>> 24) =
      raw.extractLsb' 96 32 := by
  -- the mask drops what the register has above the CSD
  have hmask : (0xFFFFFF#32).toNat = 2 ^ 24 - 1 := rfl
  have hhigh : ((upper ++ raw.extractLsb' 104 24 : BitVec 32) &&& 0xFFFFFF#32).toNat = field raw.toNat 104 24 := by
    have hlt : field raw.toNat 104 24 < 2 ^ 24 := field_lt
    rw [BitVec.toNat_and, hmask, Nat.and_two_pow_sub_one_eq_mod, BitVec.toNat_append, toNat_extract,
      ← Nat.shiftLeft_add_eq_or_of_lt hlt, Nat.shiftLeft_eq, Nat.mul_add_mod_self_right]
    exact Nat.mod_eq_of_lt hlt
  have hlow : (raw.extractLsb' 72 32 >>> 24).toNat = field raw.toNat 96 8 := by
    rw [toNat_shift (raw.extractLsb' 72 32) (show 24 + 8 = 32 from rfl), field_word raw 72 (by decide)]
  have hlt : field raw.toNat 104 24 < 2 ^ 24 := field_lt
  apply BitVec.eq_of_toNat_eq
  rw [toNat_join (by rw [hhigh]; omega) (by rw [hlow]; exact field_lt), hhigh, hlow, toNat_extract]
  exact field_append raw.toNat 96 8 24

/-- The words of the register, as the core expects them, come from the same registers by the eMMC driver. -/
theorem converted_words (c : Emmc.UBoot.Cmd) (old : List UInt32)
    (hlong : c.respType &&& Emmc.UBoot.MMC_RSP_PRESENT ≠ 0 ∧ c.respType &&& Emmc.UBoot.MMC_RSP_136 ≠ 0)
    (raw : BitVec 128) (upper : BitVec 8) :
    (c.readResponse (fun i => ⟨registers raw upper i⟩) old).map UInt32.toBitVec =
      [raw.extractLsb' 96 32, raw.extractLsb' 64 32, raw.extractLsb' 32 32, raw.extractLsb' 8 32 <<< 8] := by
  unfold Emmc.UBoot.Cmd.readResponse
  rw [if_pos hlong.1, if_pos hlong.2]
  have hone : (raw.extractLsb' 72 32 <<< 8) ||| (raw.extractLsb' 40 32 >>> 24) = raw.extractLsb' 64 32 :=
    extract_across raw 40 32 8 (by decide)
  have htwo : (raw.extractLsb' 40 32 <<< 8) ||| (raw.extractLsb' 8 32 >>> 24) = raw.extractLsb' 32 32 :=
    extract_across raw 8 32 8 (by decide)
  rw [← converted_top raw upper, ← hone, ← htwo]
  rfl

/-- **With these words and the code before the patch**, which multiplies by `read_bl_len`, every capacity is right. -/
theorem converted_capacity (card : SdCsd) (hone : csd 1 = card.raw.extractLsb' 64 32)
    (htwo : csd 2 = card.raw.extractLsb' 32 32) :
    (capacityUser (card.version = .v2) csd (if card.version = .v2 then 512#64 else (blLen csd).setWidth 64)).toNat =
      card.capacity := by
  obtain ⟨raw, version, hstructure⟩ := card
  cases version with
  | v1 =>
    have hlen : (blLen csd).toNat = 2 ^ field raw.toNat 80 4 := by
      rw [blLen_toNat, hone, field_word _ 64 (by decide)]
    have hlt : field raw.toNat 80 4 < 2 ^ 4 := field_lt
    have hpow : 2 ^ field raw.toNat 80 4 ≤ 2 ^ 15 := Nat.pow_le_pow_right (by decide) (by omega)
    have hfactor : ((blLen csd).setWidth 64).toNat = 2 ^ field raw.toNat 80 4 := by
      rw [BitVec.toNat_setWidth, hlen]
      exact Nat.mod_eq_of_lt (by omega)
    show (capacityUser false csd ((blLen csd).setWidth 64)).toNat =
      (field raw.toNat 62 12 + 1) * 2 ^ (field raw.toNat 47 3 + 2) * 2 ^ field raw.toNat 80 4
    rw [capacity_v1 hone htwo (by rw [hfactor]; exact hpow), hfactor, ← field_append raw.toNat 62 2 10]
  | v2 =>
    show (capacityUser true csd 512#64).toNat = (field raw.toNat 48 22 + 1) * (512 * 1024)
    rw [capacity_v2 hone htwo (by decide), ← field_append raw.toNat 48 16 6, Nat.mul_assoc]
    rfl

/-! ## The patched code -/

/-- Version 1: the powers of two on both sides are those of the multiplier and of the block length. -/
theorem balance_v1 (seen real m n len : ℕ) :
    (seen + 1) * 2 ^ (m + 2) * 4 = (real + 1) * 2 ^ (n + 2) * 2 ^ len ↔
      if m + 2 ≤ n + len then FollowedByOnes seen real (n + len - (m + 2))
      else FollowedByOnes real seen (m + 2 - (n + len)) := by
  have hreal : (real + 1) * 2 ^ (n + 2) * 2 ^ len = (real + 1) * 2 ^ (n + len) * 4 := by
    calc (real + 1) * 2 ^ (n + 2) * 2 ^ len = (real + 1) * (2 ^ (n + 2) * 2 ^ len) := Nat.mul_assoc _ _ _
      _ = (real + 1) * (2 ^ (n + len) * 4) := by
        rw [← Nat.pow_add, show n + 2 + len = n + len + 2 by omega, Nat.pow_add 2 (n + len) 2]
      _ = (real + 1) * 2 ^ (n + len) * 4 := (Nat.mul_assoc _ _ _).symm
  rw [hreal, Nat.mul_right_cancel_iff (by decide), pow_balance]

/-- Version 2: the code multiplies by 2 to the power of 12, and a unit has 2 to the power of 19 bytes. -/
theorem balance_v2 (seen real : ℕ) :
    (seen + 1) * 2 ^ 10 * 4 = (real + 1) * (512 * 1024) ↔ FollowedByOnes seen real 7 := by
  rw [← followed_iff]
  omega

/-- The words that the driver delivers from the registers with the CSD. -/
def delivered (raw : BitVec 128) (upper : BitVec 8) : ℕ → BitVec 32 :=
  words [registers raw upper 0, registers raw upper 1, registers raw upper 2, registers raw upper 3]

theorem delivered_one (raw : BitVec 128) (upper : BitVec 8) : delivered raw upper 1 = raw.extractLsb' 40 32 := rfl

theorem delivered_two (raw : BitVec 128) (upper : BitVec 8) : delivered raw upper 2 = raw.extractLsb' 72 32 := rfl

/-- The command succeeds, so it is about these words. -/
theorem capacityRight_delivered (csd : SdCsd) (upper : BitVec 8) (a : Answers) (mode rca : BitVec 16)
    (readBlLen : BitVec 32) (capacityUser : BitVec 64) :
    CapacityRight csd upper a mode rca readBlLen capacityUser ↔
      (mmcStartup (csd.mmc readBlLen capacityUser) (delivered csd.raw upper)).readBlLen.toNat = csd.blockLen ∧
      (mmcStartup (csd.mmc readBlLen capacityUser) (delivered csd.raw upper)).capacityUser.toNat = csd.capacity := by
  obtain ⟨s, hsend, hresponse⟩ := send_csd { a with rsp := registers csd.raw upper } mode rca
  have hwords : words s.response = delivered csd.raw upper := congrArg words hresponse
  unfold CapacityRight
  rw [hsend, ← hwords]
  constructor
  · rintro ⟨s', hs, hlen, hcapacity⟩
    obtain rfl : s = s' := (Prod.mk.inj (Option.some.inj hs)).2
    exact ⟨hlen, hcapacity⟩
  · exact fun h => ⟨s, rfl, h⟩

/-- **The capacity is right** exactly where the block length is found and the sizes differ by ones. -/
theorem capacity_right_iff (csd : SdCsd) (upper : BitVec 8) (a : Answers) (mode rca : BitVec 16)
    (readBlLen : BitVec 32) (capacityUser : BitVec 64) :
    CapacityRight csd upper a mode rca readBlLen capacityUser ↔ csd.Balanced := by
  rw [capacityRight_delivered]
  obtain ⟨raw, version, hstructure⟩ := csd
  have hone := delivered_one raw upper
  have htwo := delivered_two raw upper
  cases version with
  | v1 =>
    -- word 1 is register 1, so that its bits 19 to 16 are the bits 59 to 56 of the CSD
    have hlen : (blLen (delivered raw upper)).toNat = 2 ^ field raw.toNat 56 4 := by
      rw [blLen_toNat, hone, field_word _ 40 (by decide)]
    refine and_congr ?_ ?_
    · show (blLen (delivered raw upper)).toNat = 2 ^ field raw.toNat 80 4 ↔ _
      rw [hlen]
      exact Nat.pow_right_inj (by decide)
    · show (Br2Efinix.SdHost.capacityUser false (delivered raw upper) 4#64).toNat =
        (field raw.toNat 62 12 + 1) * 2 ^ (field raw.toNat 47 3 + 2) * 2 ^ field raw.toNat 80 4 ↔ _
      rw [capacity_v1 hone htwo (by decide)]
      exact balance_v1 _ _ _ _ _
  | v2 =>
    show (512#32).toNat = 512 ∧ (Br2Efinix.SdHost.capacityUser true (delivered raw upper) 4#64).toNat =
      (field raw.toNat 48 22 + 1) * (512 * 1024) ↔ _
    rw [capacity_v2 hone htwo (by decide)]
    exact (and_iff_right rfl).trans (balance_v2 _ _)

/-- In version 2 the ones are the card command classes 4 to 10, which would all have to be there. -/
theorem balanced_v2 (csd : SdCsd) (hversion : csd.version = .v2) :
    csd.Balanced ↔ field csd.raw.toNat 88 7 = 127 ∧
      field csd.raw.toNat 40 6 * 2 ^ 9 + field csd.raw.toNat 95 9 = csd.cSize := by
  have hsplit : field csd.raw.toNat 95 9 * 2 ^ 7 + field csd.raw.toNat 88 7 = field csd.raw.toNat 88 16 :=
    field_append csd.raw.toNat 88 7 9
  have hlt : field csd.raw.toNat 88 7 < 2 ^ 7 := field_lt
  unfold SdCsd.Balanced SdCsd.seenSize FollowedByOnes
  rw [hversion]
  simp only
  omega

/-- A card of 15160 units of 512 KiB. -/
def highCapacityCard : SdCsd :=
  { raw := 0x400E00325B5900003B377F800A404001#128, version := .v2, structure_eq := by decide }

/-- The code finds more than twice the capacity. -/
theorem capacity_doubled : ¬CapacityRight highCapacityCard 0#8 (ready [] []) 0#16 1#16 0#32 0#64 := by
  rw [capacityRight_delivered]
  exact fun h => absurd h.2 (by decide)

end Br2Efinix.SdHost
