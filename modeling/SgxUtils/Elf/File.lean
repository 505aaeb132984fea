import Mathlib.Data.BitVec

/-!
# The ELF views `elf2sgxs` reads

`elf2sgxs` reads its input through `xmas_elf`: the class in the header, the section named
`.dynsym`, the data of every section, and the program headers with their data. An
`ElfFile` holds exactly these views, each as the value the `xmas_elf` accessor returns, so a
model function reads the file the way the Rust code does. A field is a `BitVec` where the
accessor returns `u16`, `u32` or `u64`, and sums of them wrap, as `u64` arithmetic does in a
release build.

Nothing ties the views together: the section headers and the program headers are two
independent tables of the file, and a file may make them disagree.

The module also holds the converter's error type, the little-endian byte image of an integer,
which is how the code's `transmute` lays out a `u64` on x86-64, and `ElfFile.revalue`, the same
file with other dynamic symbol values, against which the checks are compared.
-/

namespace SgxUtils.Elf

/-- `xmas_elf::header::Class`. -/
inductive HeaderClass
  | none | thirtyTwo | sixtyFour | other
  deriving DecidableEq, Repr

/-- `xmas_elf::program::Type`, with the types the converter never names folded into `other`. -/
inductive PhType
  | load | dynamic | other
  deriving DecidableEq, Repr

/-- `xmas_elf::dynamic::Tag<u64>`. -/
inductive Tag
  | null | needed | pltRelSize | pltgot | hash | strTab | symTab | rela | relaSize | relaEnt
  | strSize | symEnt | init | fini | soName | rPath | symbolic | rel | relSize | relEnt
  | pltRel | debug | textRel | jmpRel | bindNow | initArray | finiArray | initArraySize
  | finiArraySize | runPath | flags | preInitArray | preInitArraySize | symTabShIndex
  | osSpecific (n : BitVec 64)
  | processorSpecific (n : BitVec 64)
  deriving DecidableEq, Repr

/-- An entry of the dynamic segment, `xmas_elf::dynamic::Dynamic<u64>`: its tag and the
`d_un` word. `get_val` and `get_ptr` both return `d_un`; neither panics on the tags the
converter calls them on (`DT_RELACOUNT` and `DT_RELA`). -/
structure DynEntry where
  tag : Tag
  un : BitVec 64
  deriving DecidableEq, Repr

/-- An entry of `.dynsym`, `xmas_elf::symbol_table::DynEntry64`, with its name already read
from the string table by `get_name`. -/
structure DynSym where
  name : String
  shndx : BitVec 16
  value : BitVec 64
  size : BitVec 64
  deriving DecidableEq, Repr

/-- `SHN_UNDEF`: the section index of an undefined symbol. -/
def shnUndef : BitVec 16 := 0

/-- An entry of a relocation section with addends, `xmas_elf::sections::Rela<u64>`. -/
structure Rela where
  offset : BitVec 64
  info : BitVec 64
  addend : BitVec 64
  deriving DecidableEq, Repr

/-- `Rela::get_symbol_table_index`: the high half of `r_info`. -/
def Rela.getSymbolTableIndex (r : Rela) : BitVec 32 := (r.info >>> 32).setWidth 32

/-- `Rela::get_type`: the low half of `r_info`. -/
def Rela.getType (r : Rela) : BitVec 32 := r.info.setWidth 32

/-- `xmas_elf::sections::SectionData`, with the payloads the converter never matches folded
into `other`. -/
inductive SectionData
  | dynSymbolTable64 (syms : List DynSym)
  | rela64 (relas : List Rela)
  | other
  deriving DecidableEq, Repr

/-- A section header with the data `get_data` decodes for it. -/
structure Section where
  name : String
  data : SectionData
  deriving DecidableEq, Repr

/-- `xmas_elf::program::SegmentData`: the raw file bytes (`Undefined`) of a loadable segment,
the decoded entries of a dynamic one. -/
inductive SegmentData
  | undefined (bytes : List UInt8)
  | dynamic64 (entries : List DynEntry)
  | other
  deriving DecidableEq, Repr

/-- A program header with the data `get_data` returns for it. -/
structure ProgramHeader where
  phType : PhType
  flags : BitVec 32
  virtualAddr : BitVec 64
  memSize : BitVec 64
  data : SegmentData
  deriving DecidableEq, Repr

/-- `xmas_elf::program::FLAG_X`. -/
def flagX : BitVec 32 := 0x1
/-- `xmas_elf::program::FLAG_W`. -/
def flagW : BitVec 32 := 0x2
/-- `xmas_elf::program::FLAG_R`. -/
def flagR : BitVec 32 := 0x4

/-- The parts of an `xmas_elf::ElfFile` the converter reads. -/
structure ElfFile where
  headerClass : HeaderClass
  sections : List Section
  programs : List ProgramHeader
  deriving DecidableEq, Repr

/-- `ElfFile::find_section_by_name`: the first section of that name. -/
def ElfFile.findSectionByName (elf : ElfFile) (name : String) : Option Section :=
  elf.sections.find? (·.name == name)

/-! ## Files that differ in their symbol values -/

/-- The entry with its value replaced by `f` of it. -/
def DynSym.revalue (f : DynSym → BitVec 64) (x : DynSym) : DynSym := { x with value := f x }

/-- A section whose data, if it is a dynamic symbol table, has every value replaced by `f`. -/
def Section.revalue (f : DynSym → BitVec 64) (sec : Section) : Section :=
  match sec.data with
  | .dynSymbolTable64 syms => ⟨sec.name, .dynSymbolTable64 (syms.map (DynSym.revalue f))⟩
  | _ => sec

/-- The file with every dynamic symbol value replaced by `f` of its entry. -/
def ElfFile.revalue (f : DynSym → BitVec 64) (elf : ElfFile) : ElfFile :=
  { elf with sections := elf.sections.map (Section.revalue f) }

@[simp] theorem Section.name_revalue (f : DynSym → BitVec 64) (sec : Section) :
    (sec.revalue f).name = sec.name := by
  unfold Section.revalue; split <;> rfl

/-- `sgxs::Error`, as the canonical SGXS writer raises it under the contract `write` relies on:
a page address that is not on a page boundary, a page that would not come after the pages
already written, and a failure of the sink under the writer. -/
inductive SgxsError
  | invalidPageOffset
  | streamNotCanonical
  | io
  deriving DecidableEq, Repr

/-- The converter's `Error`; the comment beside each variant in the source is its message. -/
inductive Error
  /-- "Conversion for this size not supported!" -/
  | enclaveSizeTooBig
  /-- "Found undefined dynamic symbol: {}" -/
  | dynamicSymbolUndefined (name : String)
  /-- "Found symbol twice: {}" -/
  | dynamicSymbolDuplicate (name : String)
  /-- "These dynamic symbols are missing: {}" -/
  | dynamicSymbolMissing (names : List String)
  | dynamicSymbolIncorrectSize (name : String) (expected actual : BitVec 64)
  /-- ".dynsym section is not a dynamic symbol table!" -/
  | dynamicSymbolTableNotInDynsymSection
  /-- "Could not found dynamic symbol table!" -/
  | dynamicSymbolTableNotFound
  /-- "Unsupported dynamic entry: PLT/GOT" -/
  | dynEntryUnsupportedPLTGOT
  /-- "Unsupported dynamic entry: .init functions" -/
  | dynEntryUnsupportedInitFunction
  /-- "Unsupported dynamic entry: .fini functions" -/
  | dynEntryUnsupportedFiniFunction
  /-- "Unsupported dynamic entry: relocations with implicit addend" -/
  | dynEntryUnsupportedImplicitReloc
  /-- "Found dynamic entry twice: DT_RELA" -/
  | dynEntryDuplicateDtRela
  /-- "Found dynamic entry twice: DT_RELACOUNT" -/
  | dynEntryDuplicateDtRelacount
  /-- "DT_RELA found, but DT_RELACOUNT not found" -/
  | dynEntryFoundDtRelaButNotDtRelacount
  /-- "DT_RELACOUNT found, but DT_RELA not found" -/
  | dynEntryFoundDtRelacountButNotDtRela
  /-- "PT_DYNAMIC segment is not a dynamic section!" -/
  | dynamicSectionNotInPtDynamicSegment
  /-- "Could not found dynamic section!" -/
  | dynamicSectionNotFound
  /-- "Invalid relocation: section={} type={}"; the source names the first field `section`, a
  keyword here. -/
  | relocationInvalid (shind rtype : BitVec 32)
  /-- "Relocation at 0x{:016x} outside of writable segments" -/
  | relocationOutsideWritableSegment (offset : BitVec 64)
  /-- "Expected {} relocations, found {}" -/
  | relocationInvalidCount (expected : BitVec 64) (actual : ℕ)
  /-- "Only 64-bit supported!" -/
  | elfClassNot64
  /-- "No loadable segments found" -/
  | noLoadableSegments
  /-- `Sgxs(SgxsError)`: an error of the writer, passed up by `try!` through `From`. -/
  | sgxs (e : SgxsError)
  deriving DecidableEq, Repr

/-- The `w` bytes of `n`, least significant first. -/
def leBytes : ℕ → ℕ → List UInt8
  | 0, _ => []
  | w + 1, n => UInt8.ofNat n :: leBytes w (n / 256)

@[simp] theorem length_leBytes (w n : ℕ) : (leBytes w n).length = w := by
  induction w generalizing n with
  | zero => rfl
  | succ w ih => simp [leBytes, ih]

end SgxUtils.Elf
