import Antecedent.Io.Container

/-!
# The seekable and the mapped reader

Model of `ArtifactReader` and `MappedArtifactReader` (`antecedent-io-core/src/reader.rs`). Both index the
sections first, seeking over their bytes, and load a section by its id. A seek past the end is no
error; the next read is. The mapped reader remembers which sections it has hashed.
-/

namespace Antecedent.Io

open Graph (u32Max)

/-- Lines 23-31. -/
structure SectionIndexEntry where
  id : String
  fileOffset : Nat
  onWireLen : Nat

/-- The loop of `index_seekable`, from the position of the next section. -/
def indexSections (bytes : Bytes) :
    Nat → List SectionDescriptor → Except IoError (List SectionIndexEntry)
  | _, [] => .ok []
  | pos, desc :: rest => do
    let buf ← readExact bytes pos 4
    if u32Max < desc.compressedSize then .error .tooLarge
    else if leU32 buf.1 ≠ desc.compressedSize then .error (.manifestMismatch "section size mismatch")
    else
      let index ← indexSections bytes (buf.2 + leU32 buf.1) rest
      .ok (⟨desc.id, buf.2, leU32 buf.1⟩ :: index)

/-- Lines 446-471. -/
def indexSeekable (c : Codec) (bytes : Bytes) :
    Except IoError (ArtifactManifest × List SectionIndexEntry) := do
  let header ← readHeaderAndManifest c bytes
  let index ← indexSections bytes header.2 header.1.sections
  .ok (header.1, index)

/-- The entry of `id`, its descriptor and its position: `index_by_id` keeps the first entry of an id. -/
def lookupSection (index : List SectionIndexEntry) (sections : List SectionDescriptor) (id : String) :
    Except IoError ((SectionIndexEntry × SectionDescriptor) × Nat) :=
  match (index.zip sections).zipIdx.find? fun e => e.1.1.id = id with
  | some e => .ok e
  | none => .error (.convert s!"unknown section \x60{id}\x60")

/-! ## The seekable reader -/

/-- `ArtifactReader` over a byte string. A load seeks first, so the position of the source is no part of
it. -/
structure ArtifactReader where
  bytes : Bytes
  manifest : ArtifactManifest
  index : List SectionIndexEntry

namespace ArtifactReader

/-- Lines 140-146. -/
def openSeek (c : Codec) (bytes : Bytes) : Except IoError ArtifactReader := do
  let opened ← indexSeekable c bytes
  .ok ⟨bytes, opened.1, opened.2⟩

/-- Lines 171-196. -/
def loadSection (c : Codec) (r : ArtifactReader) (id : String) : Except IoError Bytes := do
  let found ← lookupSection r.index r.manifest.sections id
  let entry := found.1.1
  let desc := found.1.2
  if maxSectionBytes < entry.onWireLen then .error .tooLarge
  else
    let onWire ← readExact r.bytes entry.fileOffset entry.onWireLen
    if c.blake3 onWire.1 ≠ desc.blake3 then .error (.checksumMismatch id)
    else decodeOnWire c onWire.1 desc.compression desc.id desc.uncompressedSize

end ArtifactReader

/-! ## The mapped reader -/

/-- `MappedArtifactReader` over an owned snapshot or a map that does not change. -/
structure MappedArtifactReader where
  bytes : Bytes
  manifest : ArtifactManifest
  index : List SectionIndexEntry
  verified : List Bool

namespace MappedArtifactReader

/-- Lines 309-318. -/
def fromBacking (c : Codec) (bytes : Bytes) : Except IoError MappedArtifactReader := do
  let opened ← indexSeekable c bytes
  .ok ⟨bytes, opened.1, opened.2, opened.2.map fun _ => false⟩

/-- `locate_section` (`reader.rs:406-428`): the bytes of a section on the wire, hashed once. -/
def locateSection (c : Codec) (r : MappedArtifactReader) (pos : Nat) (entry : SectionIndexEntry)
    (desc : SectionDescriptor) (id : String) : MappedArtifactReader × Except IoError Bytes :=
  if r.bytes.length < entry.fileOffset + entry.onWireLen then
    (r, .error (.io "mmap section range out of bounds"))
  else if r.verified.getD pos false = true then
    (r, .ok (slice r.bytes entry.fileOffset entry.onWireLen))
  else if c.blake3 (slice r.bytes entry.fileOffset entry.onWireLen) ≠ desc.blake3 then
    (r, .error (.checksumMismatch id))
  else
    ({ r with verified := r.verified.set pos true },
      .ok (slice r.bytes entry.fileOffset entry.onWireLen))

/-- Lines 343-366. -/
def loadSectionMapped (c : Codec) (r : MappedArtifactReader) (id : String) :
    MappedArtifactReader × Except IoError Bytes :=
  match lookupSection r.index r.manifest.sections id with
  | .error e => (r, .error e)
  | .ok ((entry, desc), pos) =>
    if desc.compression.isSome = true then (r, .error (.mappedCompressed id))
    else
      match r.locateSection c pos entry desc id with
      | (r, .error e) => (r, .error e)
      | (r, .ok onWire) =>
        if entry.onWireLen ≠ desc.uncompressedSize then
          (r, .error (.manifestMismatch "uncompressed mmap size mismatch"))
        else (r, .ok onWire)

/-- Lines 373-403. -/
def loadSection (c : Codec) (r : MappedArtifactReader) (id : String) :
    MappedArtifactReader × Except IoError Bytes :=
  match lookupSection r.index r.manifest.sections id with
  | .error e => (r, .error e)
  | .ok ((entry, desc), pos) =>
    if desc.compression.isNone = true then r.loadSectionMapped c id
    else
      match r.locateSection c pos entry desc id with
      | (r, .error e) => (r, .error e)
      | (r, .ok onWire) =>
        (r, decodeOnWire c onWire desc.compression desc.id desc.uncompressedSize)

/-- A call on a mapped reader. -/
inductive Load
  | section' (id : String)
  | mapped (id : String)

def step (c : Codec) (r : MappedArtifactReader) : Load → MappedArtifactReader
  | .section' id => (r.loadSection c id).1
  | .mapped id => (r.loadSectionMapped c id).1

def run (c : Codec) (r : MappedArtifactReader) (loads : List Load) : MappedArtifactReader :=
  loads.foldl (step c) r

end MappedArtifactReader

end Antecedent.Io
