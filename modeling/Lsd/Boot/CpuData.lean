import Lsd.Memory.Address

/-!
# The extensions of a hart

`CpuData`: the set of extensions that the device tree tells in one string, single
letters first and then names behind underscores. The string is scanned one
character at a time; a name is looked up when the underscore behind it is met,
and the last one at the end.
-/

namespace Lsd

/-- `CpuData`: a union of declared flags. -/
structure CpuData where
  /-- `CpuData::bits`. -/
  bits : UInt64
  /-- Only declared bits are set. -/
  declared : bits &&& 0xfffff = bits
deriving DecidableEq

namespace CpuData

/-- `CpuData::empty`. -/
def empty : CpuData := ⟨0, rfl⟩

/-- `CpuData::set` of a flag to true. -/
def set (self flag : CpuData) : CpuData :=
  ⟨self.bits ||| flag.bits, by
    apply UInt64.toBitVec_inj.mp
    rw [UInt64.toBitVec_and, UInt64.toBitVec_or, BitVec.and_or_distrib_right,
      ← UInt64.toBitVec_and, ← UInt64.toBitVec_and, self.declared, flag.declared]⟩

/-- `CpuData::I`. -/
def i : CpuData := ⟨0b1, rfl⟩

/-- `CpuData::M`. -/
def m : CpuData := ⟨0b10, rfl⟩

/-- `CpuData::A`. -/
def a : CpuData := ⟨0b100, rfl⟩

/-- `CpuData::F`. -/
def f : CpuData := ⟨0b1000, rfl⟩

/-- `CpuData::D`. -/
def d : CpuData := ⟨0b10000, rfl⟩

/-- `CpuData::C`. -/
def c : CpuData := ⟨0b100000, rfl⟩

/-- `CpuData::ZICBOM`. -/
def zicbom : CpuData := ⟨0b1000000, rfl⟩

/-- `CpuData::ZICBOZ`. -/
def zicboz : CpuData := ⟨0b10000000, rfl⟩

/-- `CpuData::ZICSR`. -/
def zicsr : CpuData := ⟨0b100000000, rfl⟩

/-- `CpuData::ZIFENCEI`. -/
def zifencei : CpuData := ⟨0b1000000000, rfl⟩

/-- `CpuData::ZIHINTPAUSE`. -/
def zihintpause : CpuData := ⟨0b10000000000, rfl⟩

/-- `CpuData::ZAWRS`. -/
def zawrs : CpuData := ⟨0b100000000000, rfl⟩

/-- `CpuData::ZBA`. -/
def zba : CpuData := ⟨0b1000000000000, rfl⟩

/-- `CpuData::ZBB`. -/
def zbb : CpuData := ⟨0b10000000000000, rfl⟩

/-- `CpuData::ZBC`. -/
def zbc : CpuData := ⟨0b100000000000000, rfl⟩

/-- `CpuData::ZBS`. -/
def zbs : CpuData := ⟨0b1000000000000000, rfl⟩

/-- `CpuData::SSTC`. -/
def sstc : CpuData := ⟨0b10000000000000000, rfl⟩

/-- `CpuData::SVADU`. -/
def svadu : CpuData := ⟨0b100000000000000000, rfl⟩

/-- `CpuData::SVPBMT`. -/
def svpbmt : CpuData := ⟨0b1000000000000000000, rfl⟩

/-- `CpuData::H`. -/
def h : CpuData := ⟨0b10000000000000000000, rfl⟩

/-- The flag of a letter. -/
def letter : Char → Option CpuData
  | 'i' => some i
  | 'm' => some m
  | 'a' => some a
  | 'f' => some f
  | 'd' => some d
  | 'c' => some c
  | 'h' => some h
  | _ => none

/-- The flag of a name. -/
def named : String → Option CpuData
  | "zicbom" => some zicbom
  | "zicboz" => some zicboz
  | "zicsr" => some zicsr
  | "zifencei" => some zifencei
  | "zihintpause" => some zihintpause
  | "zawrs" => some zawrs
  | "zba" => some zba
  | "zbb" => some zbb
  | "zbc" => some zbc
  | "zbs" => some zbs
  | "sstc" => some sstc
  | "svadu" => some svadu
  | "svpbmt" => some svpbmt
  | _ => none

/-- The panic for a letter or a name that is not known. -/
def unrecognized (ext : String) : Stop := .panic ("Unrecognized extension " ++ ext)

/-- `CpuData::set_from_str`. -/
def setFromStr (self : CpuData) (string : String) : Except Stop CpuData :=
  match named string with
  | some flag => .ok (self.set flag)
  | none => .error (unrecognized string.quote)

/-- What the loop of `parse_str` keeps. -/
structure Scan where
  /-- The extensions so far. -/
  newself : CpuData
  /-- No underscore has been met. -/
  singleChar : Bool
  /-- The characters since the last underscore. -/
  characterBuffer : String
deriving DecidableEq

/-- A round of the loop of `parse_str`. -/
def Scan.step (self : Scan) (character : Char) : Except Stop Scan :=
  if self.singleChar then
    if character = '_' then .ok { self with singleChar := false }
    else
      match letter character with
      | some flag => .ok { self with newself := self.newself.set flag }
      | none => .error (unrecognized character.quote)
  else if character = '_' then do
    let newself ← self.newself.setFromStr self.characterBuffer
    pure { self with newself, characterBuffer := "" }
  else .ok { self with characterBuffer := self.characterBuffer.push character }

/-- `str::trim_start_matches` of `rv64`, which removes every copy. -/
def trimStartMatches : List Char → List Char
  | 'r' :: 'v' :: '6' :: '4' :: string => trimStartMatches string
  | string => string

/-- `CpuData::parse_str`. -/
def parseStr (string : String) : Except Stop CpuData := do
  let scan ← (trimStartMatches string.toList).foldlM Scan.step ⟨empty, true, ""⟩
  scan.newself.setFromStr scan.characterBuffer

end CpuData

end Lsd
