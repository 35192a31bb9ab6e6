import Antecedent.Io.Error
import Mathlib.Data.List.Nodup

/-!
# The artifact container

Model of the streaming readers of `antecedent-io-core/src/container.rs`: magic, version, length and CBOR
manifest, then for each section a length and its bytes on the wire. A reader is a position in a byte
string. CBOR decoding, BLAKE3 and bounded zstd decoding are third-party functions and parameters here
(`Codec`); a section hashed in chunks has the hash of its bytes.

A length is a `u32` or a `u64` in the file and fits a `usize` of 64 bits. Of a descriptor and of the
manifest the readers use only what is modelled. `stats` counters are left out.
-/

namespace Antecedent.Io

abbrev Bytes := List UInt8

/-- `MAGIC`: `CAUSAL\0\0`. -/
def magicBytes : Bytes := [67, 65, 85, 83, 65, 76, 0, 0]

/-- `CONTAINER_VERSION`. -/
def containerVersion : Nat := 1

/-- `COMPRESSION_ZSTD`. -/
def compressionZstd : String := "zstd"

/-- `SKIP_SCRATCH`. -/
def skipScratch : Nat := 64 * 1024

/-- `MAX_MANIFEST_BYTES`. -/
def maxManifestBytes : Nat := 16 * 1024 * 1024

/-- `MAX_SECTION_BYTES`. -/
def maxSectionBytes : Nat := 512 * 1024 * 1024

/-- `MAX_TOTAL_UNCOMPRESSED_BYTES`. -/
def maxTotalUncompressedBytes : Nat := 4 * maxSectionBytes

/-- `u64::MAX`. -/
def maxU64 : Nat := 18446744073709551615

/-- `SectionDescriptor` (`wire.rs:89-108`), the fields the readers use. -/
structure SectionDescriptor where
  id : String
  compression : Option String
  compressedSize : Nat
  uncompressedSize : Nat
  blake3 : Bytes

/-- Lines 55-71. -/
structure ArtifactManifest where
  sections : List SectionDescriptor

/-- Lines 78-86. -/
structure SectionBytes where
  id : String
  data : Bytes

/-- Lines 110-115. -/
structure EncodedArtifact where
  manifest : ArtifactManifest
  sections : List SectionBytes

/-- The third-party functions: `from_cbor` of a manifest, `blake3::hash`, and a zstd decoder read up to
a number of bytes. -/
structure Codec where
  fromCbor : Bytes → Except IoError ArtifactManifest
  blake3 : Bytes → Bytes
  zstd : Bytes → Nat → Except String Bytes

/-! ## Reading -/

/-- `len` bytes at `pos`, or as many as there are. -/
def slice (bytes : Bytes) (pos len : Nat) : Bytes := (bytes.drop pos).take len

/-- `Read::read_exact` and `read_exact_len` (`container.rs:309-322`): the bytes and the position behind
them. -/
def readExact (bytes : Bytes) (pos len : Nat) : Except IoError (Bytes × Nat) :=
  if (slice bytes pos len).length = len then .ok (slice bytes pos len, pos + len)
  else .error (.io "failed to fill whole buffer")

/-- `u32::from_le_bytes`. -/
def leU32 (b : Bytes) : Nat := b.foldr (fun x n => x.toNat + 256 * n) 0

/-- The sum of the declared sizes, refused past `u64::MAX`. -/
def totalUncompressed (sections : List SectionDescriptor) : Except IoError Nat :=
  sections.foldlM (fun acc desc =>
    if acc + desc.uncompressedSize ≤ maxU64 then .ok (acc + desc.uncompressedSize)
    else .error .tooLarge) 0

/-- The checks on a decoded manifest (`container.rs:262-277`). -/
def checkManifest (manifest : ArtifactManifest) : Except IoError Unit := do
  let total ← totalUncompressed manifest.sections
  if maxTotalUncompressedBytes < total then .error .tooLarge
  else if ¬ (manifest.sections.map SectionDescriptor.id).Nodup then
    .error (.manifestMismatch "duplicate section id")
  else .ok ()

/-- `read_header_and_manifest` (`container.rs:237-279`): the manifest and the position of the first
section. -/
def readHeaderAndManifest (c : Codec) (bytes : Bytes) : Except IoError (ArtifactManifest × Nat) := do
  let magic ← readExact bytes 0 8
  if magic.1 ≠ magicBytes then .error .badMagic
  else
    let version ← readExact bytes magic.2 4
    if leU32 version.1 ≠ containerVersion then .error (.unsupportedVersion (leU32 version.1))
    else
      let length ← readExact bytes version.2 4
      if maxManifestBytes < leU32 length.1 then .error .tooLarge
      else
        let buf ← readExact bytes length.2 (leU32 length.1)
        let manifest ← c.fromCbor buf.1
        checkManifest manifest
        .ok (manifest, buf.2)

/-- Lines 541-547. -/
def decodeSizeCap (uncompressedSize : Nat) : Except IoError Nat :=
  if maxSectionBytes < uncompressedSize then .error .tooLarge else .ok uncompressedSize

/-- Lines 551-580. -/
def decodeZstdBounded (c : Codec) (onWire : Bytes) (max : Nat) (id : String) :
    Except IoError Bytes :=
  match c.zstd onWire (max + 1) with
  | .error message => .error (.decompress id message)
  | .ok out =>
    if max < out.length then
      .error (.decompress id s!"decompressed size exceeds declared uncompressed_size {max}")
    else .ok out

/-- Lines 491-514. -/
def decodeOnWire (c : Codec) (onWire : Bytes) (compression : Option String) (id : String)
    (uncompressedSize : Nat) : Except IoError Bytes :=
  match compression with
  | none => .ok onWire
  | some algo =>
    if algo = compressionZstd then do
      let max ← decodeSizeCap uncompressedSize
      let logical ← decodeZstdBounded c onWire max id
      if logical.length ≠ max then
        .error (.decompress id s!"logical size {logical.length} != uncompressed_size {max}")
      else .ok logical
    else .error (.unsupportedCompression algo)

/-- The length in front of a section, and the position of its bytes: the checks that
`read_section_logical` and `skip_section_verified` share. -/
def readSectionLen (bytes : Bytes) (pos : Nat) (desc : SectionDescriptor) :
    Except IoError (Nat × Nat) := do
  let buf ← readExact bytes pos 4
  if leU32 buf.1 ≠ desc.compressedSize then .error (.manifestMismatch "section size mismatch")
  else if maxSectionBytes < leU32 buf.1 then .error .tooLarge
  else .ok (leU32 buf.1, buf.2)

/-- `read_section_logical` (`container.rs:281-301`): the logical bytes and the position of the next
section. -/
def readSectionLogical (c : Codec) (bytes : Bytes) (pos : Nat) (desc : SectionDescriptor) :
    Except IoError (Bytes × Nat) := do
  let len ← readSectionLen bytes pos desc
  let onWire ← readExact bytes len.2 len.1
  if c.blake3 onWire.1 ≠ desc.blake3 then .error (.checksumMismatch desc.id)
  else
    let logical ← decodeOnWire c onWire.1 desc.compression desc.id desc.uncompressedSize
    .ok (logical, onWire.2)

/-- The loop of `skip_section_verified`: chunks of at most `SKIP_SCRATCH` bytes, and what the hasher has
taken in. A chunk takes in at least one byte, so `fuel` bounds the loop by the bytes that remain. -/
def skipChunks (bytes : Bytes) : Nat → Nat → Nat → Bytes → Except IoError (Bytes × Nat)
  | 0, _, pos, hashed => .ok (hashed, pos)
  | fuel + 1, remaining, pos, hashed =>
    if remaining = 0 then .ok (hashed, pos)
    else do
      let n := min remaining skipScratch
      let chunk ← readExact bytes pos n
      skipChunks bytes fuel (remaining - n) chunk.2 (hashed ++ chunk.1)

/-- `skip_section_verified` (`container.rs:328-363`): the position of the next section. -/
def skipSectionVerified (c : Codec) (bytes : Bytes) (pos : Nat) (desc : SectionDescriptor) :
    Except IoError Nat := do
  let len ← readSectionLen bytes pos desc
  let hashed ← skipChunks bytes len.1 len.1 len.2 []
  if c.blake3 hashed.1 ≠ desc.blake3 then .error (.checksumMismatch desc.id)
  else .ok hashed.2

/-- The loop of `read_selective`; `read_from` is the one that wants every section. -/
def readSections (c : Codec) (bytes : Bytes) (want : String → Bool) :
    Nat → List SectionDescriptor → Except IoError (List SectionBytes)
  | _, [] => .ok []
  | pos, desc :: rest =>
    if want desc.id = true then do
      let logical ← readSectionLogical c bytes pos desc
      let sections ← readSections c bytes want logical.2 rest
      .ok (⟨desc.id, logical.1⟩ :: sections)
    else do
      let pos ← skipSectionVerified c bytes pos desc
      readSections c bytes want pos rest

/-- Lines 197-205. -/
def readFrom (c : Codec) (bytes : Bytes) : Except IoError EncodedArtifact := do
  let header ← readHeaderAndManifest c bytes
  let sections ← readSections c bytes (fun _ => true) header.2 header.1.sections
  .ok ⟨header.1, sections⟩

/-- Lines 217-232. -/
def readSelective (c : Codec) (bytes : Bytes) (want : List String) :
    Except IoError EncodedArtifact := do
  let header ← readHeaderAndManifest c bytes
  let sections ← readSections c bytes (fun id => want.contains id) header.2 header.1.sections
  .ok ⟨header.1, sections⟩

end Antecedent.Io
