import Counted.Foundations.ByteReader
import Counted.Foundations.Grouping
import Counted.Ingestion.CountryRanges

namespace Counted.Ingestion

open Foundations

def magic : JsString := js "CTRY"

def tableVersion : ℕ := 1

-- an operation of the writer is the bytes it pushes
namespace Writer

def u8 (value : ℕ) : List UInt8 := [UInt8.ofNat value]

def u16 (value : ℕ) : List UInt8 := u8 value ++ u8 (value / 256)

def u32 (value : ℕ) : List UInt8 := u16 (value % 65536) ++ u16 (value / 65536)

def ascii (text : JsString) : List UInt8 := text.flatMap (fun ch ↦ u8 ch.toNat)

def varint (value : ℕ) : List UInt8 := leb128 value

end Writer

section Writing

variable (localeCompare : JsString → JsString → ℤ)

def frequency (boundaries : List (Boundary JsString)) : List (JsString × ℕ) :=
  groupBy (·.label) 0 (fun n _ ↦ n + 1) (boundaries.filter (·.label ≠ []))

/-- The commonest country comes first. The collation of the machine settles ties. -/
def countryCodes (boundaries : List (Boundary JsString)) : List JsString :=
  ((frequency boundaries).mergeSort
    (fun a b ↦ b.2 < a.2 || a.2 == b.2 && localeCompare a.1 b.1 ≤ 0)).map (·.1)

def countryIndex (codes : List JsString) (cc : JsString) : ℕ :=
  if cc = [] then 0 else codes.idxOf cc + 1

def axisEntries (codes : List JsString) : ℕ → List (Boundary JsString) → List UInt8
  | _, [] => []
  | previous, boundary :: rest => Writer.varint (boundary.start - previous) ++
      (Writer.varint (countryIndex codes boundary.label) ++
        axisEntries codes boundary.start rest)

def axisBytes (codes : List JsString) (boundaries : List (Boundary JsString)) : List UInt8 :=
  Writer.u32 boundaries.length ++ axisEntries codes 0 boundaries

/-- The codes of the countries of both families, in the order of their indices. -/
def tableCodes (v4 v6 : List Range) : List JsString :=
  countryCodes localeCompare ((toBoundaries v4).boundaries ++ (toBoundaries v6).boundaries)

/-- What `main` has the writer push, `now` being in seconds. -/
def tableBytes (now : ℕ) (v4 v6 : List Range) : List UInt8 :=
  let codes := tableCodes localeCompare v4 v6
  Writer.ascii magic ++ (Writer.u8 tableVersion ++ (Writer.u32 now ++ (Writer.u16 codes.length ++
    (codes.flatMap Writer.ascii ++ (axisBytes codes (toBoundaries v4).boundaries ++
      axisBytes codes (toBoundaries v6).boundaries)))))

/-- The file. The writer keeps its bytes in an array, which holds less than 2^32 of them. -/
def writeTable (now : ℕ) (v4 v6 : List Range) : Except JsString (List UInt8) :=
  if (tableBytes localeCompare now v4 v6).length < 2 ^ 32 then
    .ok (tableBytes localeCompare now v4 v6)
  else .error invalidArrayLength

end Writing

abbrev Reader := ByteReader JsString

namespace Reader

def truncated : JsString := js "country table is truncated"

def u8 : Reader ℕ := fun bytes ↦
  match bytes with
  | [] => .error truncated
  | byte :: rest => .ok (byte.toNat, rest)

def u16 : Reader ℕ := do
  let low ← u8
  let high ← u8
  return low ||| high <<< 8

def u32 : Reader ℕ := do
  let low ← u16
  let high ← u16
  return low + high * 65536

def ascii (length : ℕ) : Reader JsString := List.map UInt16.ofNat <$> readMany u8 length

def varint : Reader ℕ := readLeb128 truncated

def expectMagic : Reader Unit := do
  let word ← ascii 4
  if word = magic then pure () else throw (js "not a country table")

def expectVersion : Reader Unit := do
  let version ← u8
  if version = tableVersion then pure ()
  else throw (js "country table is version " ++ natText version ++ js "; this build reads " ++
    natText tableVersion)

/-- `store` is what the array of the starts makes of a number. The countries are in a
`Uint16Array`. -/
def readAxis (store : ℕ → ℕ) : ℕ → ℕ → Reader CountryAxis
  | 0, _ => pure ⟨[], []⟩
  | count + 1, previous => do
    let delta ← varint
    let country ← varint
    let rest ← readAxis store count (previous + delta)
    return ⟨store (previous + delta) :: rest.starts, country % 65536 :: rest.country⟩

def blocks (store : ℕ → ℕ) : Reader CountryAxis := do
  let count ← u32
  readAxis store count 0

end Reader

/-- `generatedAt` is in milliseconds. -/
structure DecodedTable extends CountryTable where
  generatedAt : ℕ

/-- The starts of the IPv4 blocks are in a `Uint32Array`, those of the IPv6 blocks in a
`Float64Array`. -/
def readTable : Reader DecodedTable := do
  Reader.expectMagic
  Reader.expectVersion
  let generatedAt ← Reader.u32
  let countryCount ← Reader.u16
  let countries ← readMany (Reader.ascii 2) countryCount
  let v4 ← Reader.blocks (· % 2 ^ 32)
  let v6 ← Reader.blocks id
  return { countries, v4, v6, generatedAt := generatedAt * 1000 }

def decodeCountryTable (bytes : List UInt8) : Except JsString DecodedTable :=
  (readTable bytes).map (·.1)

section Codings

theorem reads_u8 (n : ℕ) : Reads Reader.u8 (Writer.u8 n) (n % 256) := by
  intro rest
  rw [Writer.u8, List.singleton_append, Reader.u8, UInt8.toNat_ofNat']

theorem reads_u16 (n : ℕ) : Reads Reader.u16 (Writer.u16 n) (n % 65536) := by
  have hor : n % 256 ||| (n / 256 % 256) <<< 8 = n % 65536 := by
    rw [Nat.or_comm, ← Nat.shiftLeft_add_eq_or_of_lt (b := n % 256) (i := 8) (by omega),
      Nat.shiftLeft_eq]
    omega
  rw [← hor]
  exact (reads_u8 n).bind ((reads_u8 (n / 256)).bind_pure (n % 256 ||| · <<< 8))

theorem reads_u32 (n : ℕ) : Reads Reader.u32 (Writer.u32 n) (n % 2 ^ 32) := by
  have hsum : n % 65536 % 65536 + n / 65536 % 65536 * 65536 = n % 2 ^ 32 := by omega
  rw [← hsum]
  exact (reads_u16 (n % 65536)).bind
    ((reads_u16 (n / 65536)).bind_pure (n % 65536 % 65536 + · * 65536))

theorem reads_ascii {text : JsString} (h : ∀ ch ∈ text, ch.toNat < 256) {n : ℕ}
    (hn : text.length = n) : Reads (Reader.ascii n) (Writer.ascii text) text := by
  subst hn
  have hmany := Reads.many (l := text) (fun ch _ ↦ reads_u8 ch.toNat)
  have hmap := hmany.map (List.map UInt16.ofNat)
  have hid : (text.map (fun ch ↦ ch.toNat % 256)).map UInt16.ofNat = text := by
    rw [List.map_map]
    refine (List.map_congr_left fun ch hch ↦ ?_).trans (List.map_id text)
    rw [Function.comp_apply, Nat.mod_eq_of_lt (h ch hch), UInt16.ofNat_toNat, id]
  rw [hid] at hmap
  exact hmap

theorem reads_axis (store : ℕ → ℕ) (codes : List JsString) {boundaries : List (Boundary JsString)}
    (h : Ascending boundaries) {previous : ℕ} (hp : ∀ b ∈ boundaries, previous ≤ b.start) :
    Reads (Reader.readAxis store boundaries.length previous) (axisEntries codes previous boundaries)
      ⟨boundaries.map (store ·.start),
        boundaries.map (countryIndex codes ·.label % 65536)⟩ := by
  induction boundaries generalizing previous with
  | nil => exact Reads.pure _
  | cons b rest ih =>
    obtain ⟨hb, hrest⟩ := List.pairwise_cons.1 h
    have hstart : previous + (b.start - previous) = b.start := by
      have hle := hp b (List.mem_cons_self ..)
      omega
    have hread := ih hrest (fun c hc ↦ (hb c hc).le)
    refine (reads_leb128 Reader.truncated (b.start - previous)).bind
      ((reads_leb128 Reader.truncated (countryIndex codes b.label)).bind ?_)
    rw [hstart]
    exact hread.bind_pure (fun axis ↦ CountryAxis.mk
      (store b.start :: axis.starts) (countryIndex codes b.label % 65536 :: axis.country))

theorem reads_blocks (store : ℕ → ℕ) (codes : List JsString)
    {boundaries : List (Boundary JsString)} (h : Ascending boundaries)
    (hn : boundaries.length < 2 ^ 32) :
    Reads (Reader.blocks store) (axisBytes codes boundaries) ⟨boundaries.map (store ·.start),
      boundaries.map (countryIndex codes ·.label % 65536)⟩ := by
  have hcount := reads_u32 boundaries.length
  rw [Nat.mod_eq_of_lt hn] at hcount
  exact hcount.bind (reads_axis store codes h fun b _ ↦ Nat.zero_le b.start)

/-- Every boundary takes at least two bytes. -/
theorem length_le_axisEntries (codes : List JsString) (previous : ℕ)
    (boundaries : List (Boundary JsString)) :
    boundaries.length ≤ (axisEntries codes previous boundaries).length := by
  induction boundaries generalizing previous with
  | nil => exact Nat.zero_le _
  | cons b rest ih =>
    have hpos : 0 < (Writer.varint (b.start - previous)).length :=
      List.length_pos_iff.2 (leb128_ne_nil _)
    have hrest := ih b.start
    simp only [axisEntries, List.length_append, List.length_cons]
    omega

end Codings

section Codes

variable (localeCompare : JsString → JsString → ℤ) {boundaries : List (Boundary JsString)}

theorem countryCodes_perm (boundaries : List (Boundary JsString)) :
    (countryCodes localeCompare boundaries).Perm
      (distinctKeys (·.label) (boundaries.filter (·.label ≠ []))) := by
  rw [← @groupBy_keys _ _ _ _ _ 0 (fun n _ ↦ n + 1)]
  exact (List.mergeSort_perm _ _).map _

theorem mem_countryCodes {cc : JsString} : cc ∈ countryCodes localeCompare boundaries ↔
    cc ≠ [] ∧ ∃ b ∈ boundaries, b.label = cc := by
  rw [(countryCodes_perm localeCompare boundaries).mem_iff, mem_distinctKeys]
  constructor
  · intro ⟨b, hb, hcc⟩
    obtain ⟨hb, hne⟩ := List.mem_filter.1 hb
    exact ⟨hcc ▸ of_decide_eq_true hne, b, hb, hcc⟩
  · intro ⟨hne, b, hb, hcc⟩
    exact ⟨b, List.mem_filter.2 ⟨hb, decide_eq_true (hcc ▸ hne)⟩, hcc⟩

/-- The codes that there can be. -/
def alphabet : List UInt16 := (List.range 26).map (fun n ↦ UInt16.ofNat (65 + n))

theorem mem_alphabet {u : UInt16} (h : isUpper u) : u ∈ alphabet := by
  simp only [isUpper, Bool.and_eq_true, decide_eq_true_eq, UInt16.le_iff_toNat_le] at h
  obtain ⟨hlow, hhigh⟩ := h
  have h65 : (65 : UInt16).toNat = 65 := rfl
  have h90 : (90 : UInt16).toNat = 90 := rfl
  refine List.mem_map.2 ⟨u.toNat - 65, List.mem_range.2 (by omega), ?_⟩
  have hsum : 65 + (u.toNat - 65) = u.toNat := by omega
  rw [hsum, UInt16.ofNat_toNat]

theorem codes_length_le {codes : List JsString} (hn : codes.Nodup)
    (hc : ∀ cc ∈ codes, isCountryCode cc) : codes.length ≤ 676 := by
  have hsub : codes ⊆ (alphabet ×ˢ alphabet).map (fun p ↦ [p.1, p.2]) := by
    intro cc hcc
    have h := hc cc hcc
    simp only [isCountryCode, Bool.and_eq_true, decide_eq_true_eq] at h
    obtain ⟨u, v, rfl⟩ := List.length_eq_two.1 h.1
    have hall := List.all_eq_true.1 h.2
    exact List.mem_map.2 ⟨(u, v), List.mem_product.2 ⟨mem_alphabet (hall u (by simp)),
      mem_alphabet (hall v (by simp))⟩, rfl⟩
  have hlen := (hn.subperm hsub).length_le
  rw [List.length_map, List.length_product, alphabet, List.length_map, List.length_range] at hlen
  exact hlen

variable (now : ℕ) (v4 v6 : List Range)

theorem isCountryCode_of_mem_tableCodes {cc : JsString}
    (h : cc ∈ tableCodes localeCompare v4 v6) : isCountryCode cc := by
  obtain ⟨hne, b, hb, rfl⟩ := (mem_countryCodes localeCompare).1 h
  have hlabel : b.label = [] ∨ isCountryCode b.label := by
    rcases List.mem_append.1 hb with hb | hb
    · exact toBoundaries_label v4 hb
    · exact toBoundaries_label v6 hb
  exact hlabel.resolve_left hne

theorem tableCodes_length_le : (tableCodes localeCompare v4 v6).length ≤ 676 := by
  apply codes_length_le
  · exact (countryCodes_perm localeCompare _).nodup_iff.2 (distinctKeys_nodup _)
  · intro cc hcc
    exact isCountryCode_of_mem_tableCodes localeCompare v4 v6 hcc

theorem countryIndex_le (codes : List JsString) (cc : JsString) :
    countryIndex codes cc ≤ codes.length + 1 := by
  have h := List.idxOf_le_length (a := cc) (l := codes)
  unfold countryIndex
  split <;> omega

/-- The block of one family as it is in memory. -/
def axisOf (store : ℕ → ℕ) (codes : List JsString) (boundaries : List (Boundary JsString)) :
    CountryAxis :=
  ⟨boundaries.map (store ·.start), boundaries.map (countryIndex codes ·.label)⟩

theorem axisOf_eq (store : ℕ → ℕ) {codes : List JsString} (h : codes.length ≤ 676)
    (boundaries : List (Boundary JsString)) : axisOf store codes boundaries =
      ⟨boundaries.map (store ·.start), boundaries.map (countryIndex codes ·.label % 65536)⟩ := by
  have hmod (b : Boundary JsString) :
      countryIndex codes b.label % 65536 = countryIndex codes b.label := by
    have hle := countryIndex_le codes b.label
    omega
  simp only [axisOf, hmod]

/-- Decoding gives back what was encoded, but for the width of the array of IPv4 starts. -/
theorem decode_tableBytes (h4 : (toBoundaries v4).boundaries.length < 2 ^ 32)
    (h6 : (toBoundaries v6).boundaries.length < 2 ^ 32) :
    decodeCountryTable (tableBytes localeCompare now v4 v6) = .ok
      { countries := tableCodes localeCompare v4 v6
        v4 := axisOf (· % 2 ^ 32) (tableCodes localeCompare v4 v6) (toBoundaries v4).boundaries
        v6 := axisOf id (tableCodes localeCompare v4 v6) (toBoundaries v6).boundaries
        generatedAt := now % 2 ^ 32 * 1000 } := by
  have hlen := tableCodes_length_le localeCompare v4 v6
  have hascii (cc : JsString) (hcc : cc ∈ tableCodes localeCompare v4 v6) :
      Reads (Reader.ascii 2) (Writer.ascii cc) cc := by
    have hcode := isCountryCode_of_mem_tableCodes localeCompare v4 v6 hcc
    simp only [isCountryCode, Bool.and_eq_true, decide_eq_true_eq] at hcode
    refine reads_ascii (fun ch hch ↦ ?_) hcode.1
    have hupper := List.all_eq_true.1 hcode.2 ch hch
    simp only [isUpper, Bool.and_eq_true, decide_eq_true_eq, UInt16.le_iff_toNat_le] at hupper
    have h90 : (90 : UInt16).toNat = 90 := rfl
    omega
  have hcount := reads_u16 (tableCodes localeCompare v4 v6).length
  rw [Nat.mod_eq_of_lt (by omega)] at hcount
  have hcodes := Reads.many hascii
  rw [List.map_id'] at hcodes
  have hmagic : Reads Reader.expectMagic (Writer.ascii magic) () := fun _ ↦ rfl
  have hversion : Reads Reader.expectVersion (Writer.u8 tableVersion) () := fun _ ↦ rfl
  have hread : Reads readTable (tableBytes localeCompare now v4 v6)
      { countries := tableCodes localeCompare v4 v6
        v4 := axisOf (· % 2 ^ 32) (tableCodes localeCompare v4 v6) (toBoundaries v4).boundaries
        v6 := axisOf id (tableCodes localeCompare v4 v6) (toBoundaries v6).boundaries
        generatedAt := now % 2 ^ 32 * 1000 } := by
    rw [axisOf_eq _ hlen, axisOf_eq _ hlen]
    unfold readTable tableBytes
    refine hmagic.bind (hversion.bind ((reads_u32 now).bind (hcount.bind (hcodes.bind ?_))))
    refine (reads_blocks _ _ (toBoundaries_increasing v4) h4).bind ?_
    exact (reads_blocks _ _ (toBoundaries_increasing v6) h6).bind_pure _
  rw [decodeCountryTable, ← List.append_nil (tableBytes localeCompare now v4 v6), hread []]
  rfl

end Codes

end Counted.Ingestion
