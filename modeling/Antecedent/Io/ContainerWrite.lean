import Antecedent.Io.ContainerAgree

/-!
# Writing a container

Model of `EncodedArtifact::write_to` and of the packing functions of `container.rs`, with the whole of a
manifest and of a descriptor; `Codec.reader` and `ArtifactManifest.table` are what the readers use of
them. The sink takes every byte. Encoding a record as CBOR into a buffer does not fail; `zstd::encode_all`
may.

* `readFrom_table`: reading the whole manifest is the streaming reader, on its table.
-/

namespace Antecedent.Io.Full

open Graph (u32Max)
open Machine (ok_then)

structure FormatVersion where
  major : Nat
  minor : Nat
  deriving DecidableEq

structure SemanticVersion where
  major : Nat
  minor : Nat
  patch : Nat

inductive ArtifactKind
  | schemaGraph
  | analysisTrace
  | causalPosterior
  | modelBundle
  | other (tag : String)

structure ProvenanceWire where
  note : String

/-- `wire.rs:89-108`. -/
structure SectionDescriptor extends Io.SectionDescriptor where
  contentType : String
  encodingVersion : Nat
  required : Bool
  logicalSchema : String

/-- Lines 55-71. -/
structure ArtifactManifest where
  formatVersion : FormatVersion
  minimumReaderVersion : FormatVersion
  artifactKind : ArtifactKind
  libraryVersion : SemanticVersion
  artifactId : String
  sections : List SectionDescriptor
  provenance : ProvenanceWire

def ArtifactManifest.table (m : ArtifactManifest) : Io.ArtifactManifest :=
  ⟨m.sections.map SectionDescriptor.toSectionDescriptor⟩

/-- `SectionBytes` (`container.rs:78-86`), with the buffer that packing left. -/
structure SectionBytes extends Io.SectionBytes where
  packedOnWire : Option Bytes

def SectionBytes.new (id : String) (data : Bytes) : SectionBytes := ⟨⟨id, data⟩, none⟩

/-- Lines 110-115. -/
structure EncodedArtifact where
  manifest : ArtifactManifest
  sections : List SectionBytes

/-- `PartialEq` of an artifact: the packed buffers do not count. -/
def EncodedArtifact.Same (a b : EncodedArtifact) : Prop :=
  a.manifest = b.manifest ∧
    a.sections.map SectionBytes.toSectionBytes = b.sections.map SectionBytes.toSectionBytes

/-- The third-party functions: CBOR of a manifest, `blake3::hash`, `zstd::encode_all`, and a zstd decoder
read up to a number of bytes. -/
structure Codec where
  toCbor : ArtifactManifest → Bytes
  fromCbor : Bytes → Except IoError ArtifactManifest
  blake3 : Bytes → Bytes
  encodeAll : Bytes → Except String Bytes
  zstd : Bytes → Nat → Except String Bytes

def Codec.reader (c : Codec) : Io.Codec :=
  ⟨fun b => (c.fromCbor b).map ArtifactManifest.table, c.blake3, c.zstd⟩

/-! ## Packing -/

inductive CompressPolicy
  | never
  | auto
  | always

/-- `AUTO_COMPRESS_MIN_BYTES`. -/
def autoCompressMinBytes : Nat := 4096

/-- Lines 439-460. -/
def chooseOnWire (c : Codec) (logical : Bytes) : CompressPolicy → Option String × Option Bytes
  | .never => (none, none)
  | .always =>
    match c.encodeAll logical with
    | .ok w => (some compressionZstd, some w)
    | .error _ => (none, none)
  | .auto =>
    if logical.length < autoCompressMinBytes then (none, none)
    else
      match c.encodeAll logical with
      | .ok w =>
        if w.length * 100 < logical.length * 95 then (some compressionZstd, some w) else (none, none)
      | .error _ => (none, none)

/-- Lines 395-419. -/
def descriptorAndOnWire (c : Codec) (id contentType : String) (logical : Bytes)
    (policy : CompressPolicy) : SectionDescriptor × Option Bytes :=
  let (compression, onWireOwned) := chooseOnWire c logical policy
  let onWire := onWireOwned.getD logical
  ({ id := id
     contentType := contentType
     encodingVersion := 1
     required := true
     compression := compression
     compressedSize := onWire.length
     uncompressedSize := logical.length
     blake3 := c.blake3 onWire
     logicalSchema := "cbor.v1" }, onWireOwned)

def sectionDescriptorWithPolicy (c : Codec) (id contentType : String) (logical : Bytes)
    (policy : CompressPolicy) : SectionDescriptor :=
  (descriptorAndOnWire c id contentType logical policy).1

/-! ## Writing -/

def encodeOnWireOwned (c : Codec) (logical : Bytes) : Option String → Except IoError (Option Bytes)
  | none => .ok none
  | some algo =>
    if algo = compressionZstd then
      match c.encodeAll logical with
      | .ok w => .ok (some w)
      | .error e => .error (.io s!"zstd encode: {e}")
    else .error (.unsupportedCompression algo)

/-- The buffer streamed for a section: the one that packing left, if the section is compressed. -/
def onWireOwned (c : Codec) (compression : Option String) (sec : SectionBytes) :
    Except IoError (Option Bytes) :=
  match compression, sec.packedOnWire with
  | some algo, some cached =>
    if algo = compressionZstd then .ok (some cached)
    else encodeOnWireOwned c sec.data (some algo)
  | compression, _ => encodeOnWireOwned c sec.data compression

/-- One turn of the first loop of `write_to`: the bytes on the wire. -/
def checkSection (c : Codec) (desc : SectionDescriptor) (sec : SectionBytes) : Except IoError Bytes :=
  if desc.id ≠ sec.id then .error (.manifestMismatch "section id mismatch")
  else if sec.data.length ≠ desc.uncompressedSize then
    .error (.manifestMismatch "section logical size mismatch")
  else do
    let owned ← onWireOwned c desc.compression sec
    let onWire := owned.getD sec.data
    if onWire.length ≠ desc.compressedSize then
      .error (.manifestMismatch "section compressed size mismatch")
    else if c.blake3 onWire ≠ desc.blake3 then .error (.checksumMismatch sec.id)
    else .ok onWire

/-- The first loop of `write_to`. -/
def checkSections (c : Codec) : List (SectionDescriptor × SectionBytes) → Except IoError (List Bytes)
  | [] => .ok []
  | (desc, sec) :: rest => do
    let onWire ← checkSection c desc sec
    let onWires ← checkSections c rest
    .ok (onWire :: onWires)

/-- `u32::to_le_bytes`. -/
def leBytes (n : Nat) : Bytes :=
  [.ofNat n, .ofNat (n / 256), .ofNat (n / 256 / 256), .ofNat (n / 256 / 256 / 256)]

/-- The second loop of `write_to`. -/
def writeSections : List Bytes → Except IoError Bytes
  | [] => .ok []
  | onWire :: rest =>
    if u32Max < onWire.length then .error .tooLarge
    else do
      let written ← writeSections rest
      .ok (leBytes onWire.length ++ onWire ++ written)

def header (manifestLen : Nat) : Bytes := magicBytes ++ leBytes containerVersion ++ leBytes manifestLen

/-- Lines 143-210. -/
def writeTo (c : Codec) (a : EncodedArtifact) : Except IoError Bytes :=
  if a.manifest.sections.length ≠ a.sections.length then
    .error (.manifestMismatch "section count != manifest section count")
  else do
    let onWires ← checkSections c (a.manifest.sections.zip a.sections)
    let manifestBuf := c.toCbor a.manifest
    if u32Max < manifestBuf.length then .error .tooLarge
    else
      let written ← writeSections onWires
      .ok (header manifestBuf.length ++ manifestBuf ++ written)

/-! ## Reading -/

def readHeaderAndManifest (c : Codec) (bytes : Bytes) : Except IoError (ArtifactManifest × Nat) := do
  let magic ← readExact bytes 0 8
  if magic.1 ≠ magicBytes then .error .badMagic
  else
    let version ← readExact bytes magic.2 4
    if leU32 version.1 ≠ containerVersion then .error (.unsupportedVersion (leU32 version.1))
    else
      let length ← readExact bytes version.2 4
      if maxManifestBytes < leU32 length.1 then .error .tooLarge
      else
        let buf ← readExact bytes length.2 (leU32 length.1)
        let manifest ← c.fromCbor buf.1
        checkManifest manifest.table
        .ok (manifest, buf.2)

def readFrom (c : Codec) (bytes : Bytes) : Except IoError EncodedArtifact := do
  let header ← readHeaderAndManifest c bytes
  let sections ← readSections c.reader bytes (fun _ => true) header.2 header.1.table.sections
  .ok ⟨header.1, sections.map fun s => ⟨s, none⟩⟩

def EncodedArtifact.table (a : EncodedArtifact) : Io.EncodedArtifact :=
  ⟨a.manifest.table, a.sections.map SectionBytes.toSectionBytes⟩

variable {c : Codec}

theorem readHeaderAndManifest_table (bytes : Bytes) :
    Io.readHeaderAndManifest c.reader bytes =
      (readHeaderAndManifest c bytes).map fun h => (h.1.table, h.2) := by
  unfold Io.readHeaderAndManifest readHeaderAndManifest
  cases readExact bytes 0 8 with
  | error e => rfl
  | ok magic =>
    show (if _ then _ else _ : Except IoError _) = Except.map _ (if _ then _ else _)
    split_ifs with hm
    · rfl
    · cases readExact bytes magic.2 4 with
      | error e => rfl
      | ok version =>
        show (if _ then _ else _ : Except IoError _) = Except.map _ (if _ then _ else _)
        split_ifs with hv
        · rfl
        · cases readExact bytes version.2 4 with
          | error e => rfl
          | ok length =>
            show (if _ then _ else _ : Except IoError _) = Except.map _ (if _ then _ else _)
            split_ifs with hl
            · rfl
            · cases readExact bytes length.2 (leU32 length.1) with
              | error e => rfl
              | ok buf =>
                show ((c.fromCbor buf.1).map ArtifactManifest.table >>= fun m => _) =
                  Except.map _ (c.fromCbor buf.1 >>= fun m => _)
                cases c.fromCbor buf.1 with
                | error e => rfl
                | ok manifest =>
                  show (checkManifest manifest.table >>= fun _ => _) =
                    Except.map _ (checkManifest manifest.table >>= fun _ => _)
                  cases checkManifest manifest.table <;> rfl

/-- Reading the whole manifest is `read_from` on what the readers use. -/
theorem readFrom_table (bytes : Bytes) :
    Io.readFrom c.reader bytes = (readFrom c bytes).map EncodedArtifact.table := by
  unfold Io.readFrom readFrom
  rw [readHeaderAndManifest_table]
  cases readHeaderAndManifest c bytes with
  | error e => rfl
  | ok h =>
    show (readSections c.reader bytes (fun _ => true) h.2 h.1.table.sections >>= fun s => _) =
      Except.map _ (readSections c.reader bytes (fun _ => true) h.2 h.1.table.sections >>= fun s => _)
    cases readSections c.reader bytes (fun _ => true) h.2 h.1.table.sections with
    | error e => rfl
    | ok sections =>
      have hback : (sections.map fun s => (⟨s, none⟩ : SectionBytes)).map SectionBytes.toSectionBytes =
          sections := by
        rw [List.map_map]
        exact List.map_id sections
      exact congrArg (fun l => Except.ok (⟨h.1.table, l⟩ : Io.EncodedArtifact)) hback.symm

/-! ## Positions in a written container -/

variable {n : Nat} {desc : SectionDescriptor} {sec : SectionBytes} {w d bytes : Bytes}
  {owned : Option Bytes} {compression : Option String} {id : String} {a : EncodedArtifact}

theorem leU32_leBytes (h : n ≤ u32Max) : leU32 (leBytes n) = n := by
  unfold u32Max at h
  simp only [leU32, leBytes, List.foldr_cons, List.foldr_nil, UInt8.toNat_ofNat']
  omega

/-- What stands behind a prefix. -/
theorem slice_mid (pre mid post : Bytes) : slice (pre ++ (mid ++ post)) pre.length mid.length = mid := by
  unfold slice
  rw [List.drop_left, List.take_left]

theorem readExact_mid (pre mid post : Bytes) {pos len : Nat} (hpos : pos = pre.length)
    (hlen : len = mid.length) :
    readExact (pre ++ (mid ++ post)) pos len = .ok (mid, pos + len) := by
  subst hpos hlen
  rw [readExact_ok, slice_mid]
  exact ⟨rfl, rfl⟩

theorem totalUncompressed_from (n : Nat) : ∀ (descs : List Io.SectionDescriptor) {acc : Nat},
    acc ≤ maxU64 → ((descs.foldlM (fun acc desc =>
      if acc + desc.uncompressedSize ≤ maxU64 then .ok (acc + desc.uncompressedSize)
      else .error .tooLarge) acc : Except IoError Nat) = .ok n ↔
      acc + (descs.map (·.uncompressedSize)).sum = n ∧ n ≤ maxU64)
  | [], acc, hacc => by
    rw [List.map_nil, List.sum_nil, Nat.add_zero]
    exact ⟨fun h => Except.ok.inj h ▸ ⟨rfl, hacc⟩, fun h => congrArg Except.ok h.1⟩
  | desc :: rest, acc, hacc => by
    rw [List.foldlM_cons, List.map_cons, List.sum_cons, ← Nat.add_assoc]
    split_ifs with hle
    · exact totalUncompressed_from n rest hle
    · exact iff_of_false (fun h => by cases h) fun h => hle (by omega)

theorem checkManifest_ok {m : Io.ArtifactManifest} : checkManifest m = .ok () ↔
    (m.sections.map (·.uncompressedSize)).sum ≤ maxTotalUncompressedBytes ∧
      (m.sections.map (·.id)).Nodup := by
  have hmax : maxTotalUncompressedBytes ≤ maxU64 := by decide
  have htotal : ∀ {n}, totalUncompressed m.sections = .ok n ↔
      (m.sections.map (·.uncompressedSize)).sum = n ∧ n ≤ maxU64 := by
    intro n
    have h := totalUncompressed_from n m.sections (Nat.zero_le maxU64)
    rwa [Nat.zero_add] at h
  unfold checkManifest
  constructor
  · intro h
    obtain ⟨n, hn, h⟩ := bind_ok h
    obtain ⟨rfl, -⟩ := htotal.mp hn
    obtain ⟨hle, h⟩ := guard_ok h
    obtain ⟨hdup, -⟩ := guard_ok h
    exact ⟨Nat.not_lt.mp hle, not_not.mp hdup⟩
  · rintro ⟨hle, hdup⟩
    rw [htotal.mpr ⟨rfl, hle.trans hmax⟩]
    show (if _ then _ else if _ then _ else _ : Except IoError Unit) = _
    rw [if_neg (Nat.not_lt.mpr hle), if_neg (not_not.mpr hdup)]

theorem length_header (n : Nat) : (header n).length = 16 := rfl

theorem readHeader_written {m : ArtifactManifest} {buf : Bytes} (rest : Bytes) (m' : ArtifactManifest)
    (pos : Nat)
    (hcbor : c.fromCbor buf = .ok m) (hlen : buf.length ≤ u32Max) :
    readHeaderAndManifest c (header buf.length ++ buf ++ rest) = .ok (m', pos) ↔
      buf.length ≤ maxManifestBytes ∧ checkManifest m.table = .ok () ∧ m' = m ∧ pos = 16 + buf.length := by
  have h1 : readExact (header buf.length ++ buf ++ rest) 0 8 = .ok (magicBytes, 8) :=
    readExact_mid [] magicBytes (leBytes containerVersion ++ leBytes buf.length ++ buf ++ rest) rfl rfl
  have h2 : readExact (header buf.length ++ buf ++ rest) 8 4 = .ok (leBytes containerVersion, 12) :=
    readExact_mid magicBytes (leBytes containerVersion) (leBytes buf.length ++ buf ++ rest) rfl rfl
  have h3 : readExact (header buf.length ++ buf ++ rest) 12 4 = .ok (leBytes buf.length, 16) :=
    readExact_mid (magicBytes ++ leBytes containerVersion) (leBytes buf.length) (buf ++ rest) rfl rfl
  have h4 : readExact (header buf.length ++ buf ++ rest) 16 buf.length =
      .ok (buf, 16 + buf.length) := by
    rw [List.append_assoc]
    exact readExact_mid (header buf.length) buf rest rfl rfl
  have hrun : readHeaderAndManifest c (header buf.length ++ buf ++ rest) =
      if maxManifestBytes < buf.length then .error .tooLarge
      else checkManifest m.table >>= fun _ => .ok (m, 16 + buf.length) := by
    unfold readHeaderAndManifest
    simp only [ok_then h1, ok_then h2, ok_then h3, ok_then h4, ok_then hcbor, ne_eq, not_true_eq_false,
      if_false, leU32_leBytes hlen, show leU32 (leBytes containerVersion) = containerVersion by decide]
  rw [hrun]
  split_ifs with hmax
  · exact iff_of_false (fun h => by cases h) fun h => absurd h.1 (Nat.not_le.mpr hmax)
  · cases hc : checkManifest m.table with
    | error e => exact iff_of_false (fun h => by cases h) fun h => by cases h.2.1
    | ok u =>
      show (Except.ok (m, 16 + buf.length) = Except.ok (m', pos) ↔ _)
      rw [Except.ok.injEq, Prod.mk.injEq, eq_comm (a := m), eq_comm (a := 16 + buf.length)]
      exact (and_iff_right (Nat.not_lt.mp hmax)).trans (and_iff_right rfl) |>.symm

/-! ## What is written is read back -/

/-- `zstd` decodes what it encoded. -/
def Codec.ZstdInverts (c : Codec) : Prop :=
  ∀ d w, c.encodeAll d = .ok w → ∀ max, d.length ≤ max → c.zstd w max = .ok d

theorem checkSection_ok :
    checkSection c desc sec = .ok w ↔ desc.id = sec.id ∧ sec.data.length = desc.uncompressedSize ∧
      (∃ owned, onWireOwned c desc.compression sec = .ok owned ∧ w = owned.getD sec.data) ∧
      w.length = desc.compressedSize ∧ c.blake3 w = desc.blake3 := by
  unfold checkSection
  constructor
  · intro h
    obtain ⟨hid, h⟩ := guard_ok h
    obtain ⟨hlen, h⟩ := guard_ok h
    obtain ⟨owned, ho, h⟩ := bind_ok h
    obtain ⟨hsize, h⟩ := guard_ok h
    obtain ⟨hhash, h⟩ := guard_ok h
    cases h
    exact ⟨not_not.mp hid, not_not.mp hlen, ⟨owned, ho, rfl⟩, not_not.mp hsize, not_not.mp hhash⟩
  · rintro ⟨hid, hlen, ⟨owned, ho, rfl⟩, hsize, hhash⟩
    rw [if_neg (not_not.mpr hid), if_neg (not_not.mpr hlen), ok_then ho]
    show (if _ then _ else if _ then _ else _ : Except IoError Bytes) = _
    rw [if_neg (not_not.mpr hsize), if_neg (not_not.mpr hhash)]

theorem encodeOnWireOwned_some {algo : String} :
    encodeOnWireOwned c d (some algo) = .ok owned ↔
      algo = compressionZstd ∧ ∃ w, owned = some w ∧ c.encodeAll d = .ok w := by
  show (if algo = compressionZstd then _ else _ : Except IoError (Option Bytes)) = _ ↔ _
  split_ifs with ha
  · rw [and_iff_right ha]
    cases he : c.encodeAll d with
    | error e => exact iff_of_false (fun h => nomatch h) fun ⟨_, _, h⟩ => nomatch h
    | ok v =>
      constructor
      · intro h
        cases h
        exact ⟨v, rfl, rfl⟩
      · rintro ⟨w, rfl, hw⟩
        cases hw
        rfl
  · exact iff_of_false (fun h => nomatch h) fun h => ha h.1

/-- What is streamed: the section itself, or a buffer of a compressed section. -/
theorem onWireOwned_ok :
    onWireOwned c compression sec = .ok owned ↔ (compression = none ∧ owned = none) ∨
      (compression = some compressionZstd ∧ ∃ w, owned = some w ∧
        (sec.packedOnWire = some w ∨ sec.packedOnWire = none ∧ c.encodeAll sec.data = .ok w)) := by
  cases compression with
  | none =>
    show Except.ok none = Except.ok owned ↔ _
    rw [Except.ok.injEq, eq_comm]
    exact ⟨fun h => Or.inl ⟨rfl, h⟩, fun h => h.elim And.right fun h => nomatch h.1⟩
  | some algo =>
    rw [or_iff_right fun h => nomatch h.1]
    unfold onWireOwned
    cases sec.packedOnWire with
    | none =>
      show encodeOnWireOwned c sec.data (some algo) = _ ↔ _
      rw [encodeOnWireOwned_some]
      constructor
      · rintro ⟨ha, w, hw, he⟩
        exact ⟨congrArg some ha, w, hw, Or.inr ⟨rfl, he⟩⟩
      · rintro ⟨ha, w, hw, he | he⟩
        · exact nomatch he
        · exact ⟨Option.some.inj ha, w, hw, he.2⟩
    | some cached =>
      show (if algo = compressionZstd then Except.ok (some cached) else _) = _ ↔ _
      split_ifs with ha
      · rw [Except.ok.injEq]
        constructor
        · rintro rfl
          exact ⟨congrArg some ha, cached, rfl, Or.inl rfl⟩
        · rintro ⟨-, w, rfl, hw | hw⟩
          · exact hw
          · exact nomatch hw.1
      · rw [encodeOnWireOwned_some]
        exact iff_of_false (fun h => ha h.1) fun h => ha (Option.some.inj h.1)

theorem decodeOnWire_zstd :
    decodeOnWire c.reader w (some compressionZstd) id n = .ok d ↔
      n ≤ maxSectionBytes ∧ c.zstd w (n + 1) = .ok d ∧ d.length = n := by
  unfold decodeOnWire decodeSizeCap decodeZstdBounded
  show ((if compressionZstd = compressionZstd then _ else _ : Except IoError Bytes) = _ ↔ _)
  rw [if_pos rfl]
  constructor
  · intro h
    obtain ⟨max, hm, h⟩ := bind_ok h
    obtain ⟨hcap, hm⟩ := guard_ok hm
    cases hm
    obtain ⟨out, ho, h⟩ := bind_ok h
    obtain ⟨hlen, h⟩ := guard_ok h
    cases h
    split at ho
    · cases ho
    · rename_i out hz
      obtain ⟨-, ho⟩ := guard_ok ho
      cases ho
      exact ⟨Nat.not_lt.mp hcap, hz, not_not.mp hlen⟩
  · rintro ⟨hcap, hz, rfl⟩
    have hz' : c.reader.zstd w (d.length + 1) = .ok d := hz
    rw [if_neg (Nat.not_lt.mpr hcap)]
    simp only [ok_then rfl, hz', Nat.lt_irrefl, if_false, ne_eq, not_true_eq_false]

/-- What the reader asks of a written section that the writer does not check. -/
structure SectionReadable (c : Codec) (desc : SectionDescriptor) (sec : SectionBytes) : Prop where
  onWire : desc.compressedSize ≤ maxSectionBytes
  logical : desc.compression ≠ none → desc.uncompressedSize ≤ maxSectionBytes
  packed : desc.compression ≠ none → ∀ w, sec.packedOnWire = some w →
    c.zstd w (sec.data.length + 1) = .ok sec.data

theorem section_decodes_iff (hz : c.ZstdInverts) (h : checkSection c desc sec = .ok w) :
    (desc.compressedSize ≤ maxSectionBytes ∧
      decodeOnWire c.reader w desc.compression desc.id desc.uncompressedSize = .ok sec.data) ↔
      SectionReadable c desc sec := by
  obtain ⟨-, hlen, ⟨owned, ho, rfl⟩, -, -⟩ := checkSection_ok.mp h
  rcases onWireOwned_ok.mp ho with ⟨hnone, rfl⟩ | ⟨hsome, w, rfl, hw⟩
  · rw [hnone]
    exact ⟨fun h => ⟨h.1, fun hne => absurd hnone hne, fun hne => absurd hnone hne⟩,
      fun h => ⟨h.onWire, rfl⟩⟩
  · rw [hsome, Option.getD_some, decodeOnWire_zstd]
    have hne : desc.compression ≠ none := hsome ▸ Option.some_ne_none _
    constructor
    · rintro ⟨hon, hcap, hdec, -⟩
      refine ⟨hon, fun _ => hcap, fun _ w' hw' => ?_⟩
      rcases hw with hw | ⟨hw, -⟩
      · cases hw.symm.trans hw'
        rw [hlen]
        exact hdec
      · exact nomatch hw.symm.trans hw'
    · intro h
      refine ⟨h.onWire, h.logical hne, ?_, hlen⟩
      rw [← hlen]
      rcases hw with hw | ⟨-, hw⟩
      · exact h.packed hne w hw
      · exact hz _ _ hw _ (Nat.le_succ _)

theorem readSections_written (hz : c.ZstdInverts) : ∀ {l : List (SectionDescriptor × SectionBytes)}
    {ws : List Bytes} {out : Bytes}, checkSections c l = .ok ws → writeSections ws = .ok out →
      ∀ pre : Bytes, readSections c.reader (pre ++ out) (fun _ => true) pre.length
          (l.map fun p => p.1.toSectionDescriptor) = .ok (l.map fun p => p.2.toSectionBytes) ↔
        ∀ p ∈ l, SectionReadable c p.1 p.2
  | [], ws, out, _, _, pre => iff_of_true rfl (fun _ h => nomatch h)
  | (desc, sec) :: rest, ws, out, hc, hw, pre => by
    obtain ⟨w, hw1, hc⟩ := bind_ok hc
    obtain ⟨ws', hws, hc⟩ := bind_ok hc
    cases hc
    obtain ⟨hle, hw⟩ := guard_ok hw
    obtain ⟨out', hout, hw⟩ := bind_ok hw
    cases hw
    obtain ⟨hid, hlen, -, hsize, hhash⟩ := checkSection_ok.mp hw1
    have hle : w.length ≤ u32Max := Nat.not_lt.mp hle
    -- the length, the bytes and the rest of the file behind `pre`
    have hlenAt : slice (pre ++ (leBytes w.length ++ w ++ out')) pre.length 4 = leBytes w.length := by
      rw [List.append_assoc]
      exact slice_mid pre (leBytes w.length) (w ++ out')
    have hwAt : slice (pre ++ (leBytes w.length ++ w ++ out')) (pre.length + 4) w.length = w := by
      have h := slice_mid (pre ++ leBytes w.length) w out'
      rwa [List.length_append, List.append_assoc, ← List.append_assoc (leBytes w.length)] at h
    have hframed : Framed (pre ++ (leBytes w.length ++ w ++ out')) pre.length desc.toSectionDescriptor :=
      ⟨by rw [hlenAt]; rfl, by rw [hlenAt, leU32_leBytes hle, hsize]⟩
    have honWire : onWire (pre ++ (leBytes w.length ++ w ++ out'))
        (entryAt pre.length desc.toSectionDescriptor) = w := by
      rw [hsize] at hwAt ⊢
      exact hwAt
    have hnext := readSections_written hz hws hout (pre ++ (leBytes w.length ++ w))
    rw [List.append_assoc, List.length_append, List.length_append,
      show (leBytes w.length).length = 4 from rfl, ← Nat.add_assoc] at hnext
    have hstep : ∀ r, readSectionLogical c.reader (pre ++ (leBytes w.length ++ w ++ out')) pre.length
        desc.toSectionDescriptor = .ok r ↔ desc.compressedSize ≤ maxSectionBytes ∧
          decodeOnWire c.reader w desc.compression desc.id desc.uncompressedSize = .ok r.1 ∧
          r.2 = pre.length + 4 + w.length := by
      intro r
      rw [readSectionLogical_ok, and_iff_right hframed]
      unfold Logical
      rw [honWire]
      constructor
      · rintro ⟨hwh, hd, hp⟩
        exact ⟨hwh.small, hd, hsize ▸ hp⟩
      · rintro ⟨hsmall, hd, hp⟩
        refine ⟨⟨?_, hsmall, ?_⟩, hd, hsize ▸ hp⟩
        · rw [honWire]
          exact hsize
        · rw [honWire]
          exact hhash
    rw [List.map_cons, List.map_cons]
    unfold readSections
    rw [if_pos rfl, List.forall_mem_cons, ← section_decodes_iff hz hw1, ← hnext]
    constructor
    · intro h
      obtain ⟨r, hr, h⟩ := bind_ok h
      obtain ⟨secs, hsecs, h⟩ := bind_ok h
      obtain ⟨hsmall, hd, hp⟩ := (hstep r).mp hr
      rw [Except.ok.injEq, List.cons.injEq] at h
      obtain ⟨hhead, rfl⟩ := h
      rw [hp] at hsecs
      have hdata : r.1 = sec.data := congrArg Io.SectionBytes.data hhead
      exact ⟨⟨hsmall, hdata ▸ hd⟩, hsecs⟩
    · rintro ⟨⟨hsmall, hd⟩, hrest⟩
      rw [ok_then ((hstep (sec.data, pre.length + 4 + w.length)).mpr ⟨hsmall, hd, rfl⟩), ok_then hrest]
      show Except.ok ((⟨desc.id, sec.data⟩ : Io.SectionBytes) :: _) = _
      rw [hid]

theorem writeSections_checked : ∀ {l : List (SectionDescriptor × SectionBytes)},
    (∃ ws out, checkSections c l = .ok ws ∧ writeSections ws = .ok out) ↔
      ∀ p ∈ l, ∃ w, checkSection c p.1 p.2 = .ok w ∧ w.length ≤ u32Max
  | [] => iff_of_true ⟨[], [], rfl, rfl⟩ fun _ h => nomatch h
  | (desc, sec) :: rest => by
    rw [List.forall_mem_cons, ← @writeSections_checked rest]
    constructor
    · rintro ⟨ws, out, hc, hw⟩
      obtain ⟨w, hw1, hc⟩ := bind_ok hc
      obtain ⟨ws', hws, hc⟩ := bind_ok hc
      cases hc
      obtain ⟨hle, hw⟩ := guard_ok hw
      obtain ⟨out', hout, -⟩ := bind_ok hw
      exact ⟨⟨w, hw1, Nat.not_lt.mp hle⟩, ws', out', hws, hout⟩
    · rintro ⟨⟨w, hw1, hle⟩, ws', out', hws, hout⟩
      refine ⟨w :: ws', leBytes w.length ++ w ++ out', ?_, ?_⟩
      · unfold checkSections
        rw [ok_then hw1, ok_then hws]
      · unfold writeSections
        rw [if_neg (Nat.not_lt.mpr hle), ok_then hout]

theorem writeTo_accepts_iff : (∃ out, writeTo c a = .ok out) ↔
    a.manifest.sections.length = a.sections.length ∧ (c.toCbor a.manifest).length ≤ u32Max ∧
      ∀ p ∈ a.manifest.sections.zip a.sections,
        ∃ w, checkSection c p.1 p.2 = .ok w ∧ w.length ≤ u32Max := by
  rw [← writeSections_checked]
  unfold writeTo
  constructor
  · rintro ⟨bytes, h⟩
    obtain ⟨hcount, h⟩ := guard_ok h
    obtain ⟨ws, hws, h⟩ := bind_ok h
    obtain ⟨hfit, h⟩ := guard_ok h
    obtain ⟨out, hout, -⟩ := bind_ok h
    exact ⟨not_not.mp hcount, Nat.not_lt.mp hfit, ws, out, hws, hout⟩
  · rintro ⟨hcount, hfit, ws, out, hws, hout⟩
    rw [if_neg (not_not.mpr hcount), ok_then hws]
    show ∃ bytes, (if u32Max < (c.toCbor a.manifest).length then _ else _ : Except IoError Bytes) = .ok bytes
    rw [if_neg (Nat.not_lt.mpr hfit), ok_then hout]
    exact ⟨_, rfl⟩

/-! ## What a reader returns -/

/-- A section that was read from `w` on the wire. -/
structure ReadSection (c : Codec) (desc : SectionDescriptor) (sec : SectionBytes) (w : Bytes) : Prop where
  id : desc.id = sec.id
  packed : sec.packedOnWire = none
  size : w.length = desc.compressedSize
  small : w.length ≤ maxSectionBytes
  hash : c.blake3 w = desc.blake3
  decodes : decodeOnWire c.reader w desc.compression desc.id desc.uncompressedSize = .ok sec.data

theorem readSections_read {bytes : Bytes} : ∀ {descs : List SectionDescriptor} {pos : Nat}
    {secs : List Io.SectionBytes}, readSections c.reader bytes (fun _ => true) pos
      (descs.map SectionDescriptor.toSectionDescriptor) = .ok secs →
    List.Forall₂ (fun desc sec => ∃ w, ReadSection c desc sec w) descs (secs.map fun s => ⟨s, none⟩)
  | [], _, secs, h => by
    cases h
    exact .nil
  | desc :: rest, pos, secs, h => by
    rw [List.map_cons] at h
    unfold readSections at h
    rw [if_pos rfl] at h
    obtain ⟨r, hr, h⟩ := bind_ok h
    obtain ⟨secs', hsecs, h⟩ := bind_ok h
    cases h
    obtain ⟨-, hwhole, hdecodes, -⟩ := readSectionLogical_ok.mp hr
    have hsize : (onWire bytes (entryAt pos desc.toSectionDescriptor)).length = desc.compressedSize :=
      hwhole.fits
    exact .cons ⟨_, rfl, rfl, hsize, hsize.trans_le hwhole.small, hwhole.hash, hdecodes⟩
      (readSections_read hsecs)

/-- What `read_from` says about an artifact. -/
theorem readFrom_read (h : readFrom c bytes = .ok a) :
    (∃ buf, c.fromCbor buf = .ok a.manifest ∧ buf.length ≤ maxManifestBytes) ∧
      List.Forall₂ (fun desc sec => ∃ w, ReadSection c desc sec w) a.manifest.sections a.sections := by
  obtain ⟨⟨manifest, pos⟩, hh, h⟩ := bind_ok h
  obtain ⟨secs, hsecs, h⟩ := bind_ok h
  cases h
  refine ⟨?_, readSections_read hsecs⟩
  unfold readHeaderAndManifest at hh
  obtain ⟨_, -, hh⟩ := bind_ok hh
  obtain ⟨-, hh⟩ := guard_ok hh
  obtain ⟨_, -, hh⟩ := bind_ok hh
  obtain ⟨-, hh⟩ := guard_ok hh
  obtain ⟨length, -, hh⟩ := bind_ok hh
  obtain ⟨hle, hh⟩ := guard_ok hh
  obtain ⟨buf, hbuf, hh⟩ := bind_ok hh
  obtain ⟨m, hm, hh⟩ := bind_ok hh
  obtain ⟨_, -, hh⟩ := bind_ok hh
  cases hh
  obtain ⟨hlen, rfl⟩ := readExact_ok.mp hbuf
  exact ⟨_, hm, hlen.trans_le (Nat.not_lt.mp hle)⟩

theorem decodeOnWire_compression (h : decodeOnWire c.reader w compression id n = .ok d) :
    (compression = none ∧ d = w) ∨ compression = some compressionZstd := by
  cases compression with
  | none =>
    cases h
    exact Or.inl ⟨rfl, rfl⟩
  | some algo =>
    refine Or.inr (congrArg some ?_)
    by_contra ha
    have hno : (if algo = compressionZstd then _ else _ : Except IoError Bytes) = .ok d := h
    rw [if_neg ha] at hno
    cases hno

/-- A section that was read is encoded again to the size and the hash of its descriptor. -/
def Reencodes (c : Codec) (desc : SectionDescriptor) (sec : SectionBytes) : Prop :=
  (desc.compression = none → desc.compressedSize = desc.uncompressedSize) ∧
    (desc.compression ≠ none → ∃ w, c.encodeAll sec.data = .ok w ∧ w.length = desc.compressedSize ∧
      c.blake3 w = desc.blake3)

theorem ReadSection.accepted_iff (h : ReadSection c desc sec w) :
    (∃ w', checkSection c desc sec = .ok w' ∧ w'.length ≤ u32Max) ↔ Reencodes c desc sec := by
  have hmax : maxSectionBytes ≤ u32Max := by decide
  have hsmall : desc.compressedSize ≤ u32Max := h.size ▸ h.small.trans hmax
  constructor
  · rintro ⟨w', hw', -⟩
    obtain ⟨-, hlen, ⟨owned, ho, rfl⟩, hsize, hhash⟩ := checkSection_ok.mp hw'
    rcases onWireOwned_ok.mp ho with ⟨hnone, rfl⟩ | ⟨hsome, v, rfl, hv⟩
    · exact ⟨fun _ => hsize.symm.trans hlen, fun hne => absurd hnone hne⟩
    · refine ⟨fun hnone => absurd (hsome.symm.trans hnone) (Option.some_ne_none _),
        fun _ => ⟨v, ?_, hsize, hhash⟩⟩
      rcases hv with hv | hv
      · exact nomatch h.packed.symm.trans hv
      · exact hv.2
  · rintro ⟨hone, hencodes⟩
    have hdecodes := h.decodes
    rcases decodeOnWire_compression hdecodes with ⟨hnone, hdata⟩ | hsome
    · have hsize : sec.data.length = desc.compressedSize := by rw [hdata, h.size]
      refine ⟨sec.data, checkSection_ok.mpr ⟨h.id, hsize.trans (hone hnone),
        ⟨none, onWireOwned_ok.mpr (Or.inl ⟨hnone, rfl⟩), rfl⟩, hsize, ?_⟩, hsize ▸ hsmall⟩
      rw [hdata]
      exact h.hash
    · rw [hsome, decodeOnWire_zstd] at hdecodes
      obtain ⟨v, hv, hsize, hhash⟩ := hencodes (hsome ▸ Option.some_ne_none _)
      exact ⟨v, checkSection_ok.mpr ⟨h.id, hdecodes.2.2, ⟨some v, onWireOwned_ok.mpr (Or.inr ⟨hsome, v, rfl,
        Or.inr ⟨h.packed, hv⟩⟩), rfl⟩, hsize, hhash⟩, hsize ▸ hsmall⟩

/-! ## What packing leaves is accepted -/

theorem chooseOnWire_cases (c : Codec) (logical : Bytes) (policy : CompressPolicy) :
    chooseOnWire c logical policy = (none, none) ∨
      ∃ w, c.encodeAll logical = .ok w ∧ chooseOnWire c logical policy = (some compressionZstd, some w) ∧
        (policy = .auto → w.length ≤ logical.length) := by
  cases policy with
  | never => exact Or.inl rfl
  | always =>
    cases he : c.encodeAll logical with
    | error e => exact Or.inl (by simp only [chooseOnWire, he])
    | ok w => exact Or.inr ⟨w, rfl, by simp only [chooseOnWire, he], fun h => nomatch h⟩
  | auto =>
    by_cases hmin : logical.length < autoCompressMinBytes
    · exact Or.inl (if_pos hmin)
    · cases he : c.encodeAll logical with
      | error e => exact Or.inl (by simp only [chooseOnWire, he, if_neg hmin])
      | ok w =>
        by_cases hratio : w.length * 100 < logical.length * 95
        · exact Or.inr ⟨w, rfl, by simp only [chooseOnWire, he, if_neg hmin, if_pos hratio],
            fun _ => by omega⟩
        · exact Or.inl (by simp only [chooseOnWire, he, if_neg hmin, if_neg hratio])

theorem checkSection_packed (c : Codec) (id contentType : String) (logical : Bytes)
    (policy : CompressPolicy) {packed : Option Bytes}
    (hp : packed = none ∨ packed = (descriptorAndOnWire c id contentType logical policy).2) :
    checkSection c (descriptorAndOnWire c id contentType logical policy).1 ⟨⟨id, logical⟩, packed⟩ =
      .ok ((descriptorAndOnWire c id contentType logical policy).2.getD logical) := by
  refine checkSection_ok.mpr ⟨rfl, rfl, ⟨(descriptorAndOnWire c id contentType logical policy).2, ?_, rfl⟩,
    rfl, rfl⟩
  refine onWireOwned_ok.mpr ?_
  unfold descriptorAndOnWire at hp ⊢
  rcases chooseOnWire_cases c logical policy with hno | ⟨w, he, hyes, -⟩
  · rw [hno]
    exact Or.inl ⟨rfl, rfl⟩
  · rw [hyes] at hp ⊢
    refine Or.inr ⟨rfl, w, rfl, ?_⟩
    rcases hp with rfl | rfl
    · exact Or.inr ⟨rfl, he⟩
    · exact Or.inl rfl

/-- **What the reader asks of a written container that the writer does not check.** -/
structure Readable (c : Codec) (a : EncodedArtifact) : Prop where
  manifest : (c.toCbor a.manifest).length ≤ maxManifestBytes
  total : (a.manifest.sections.map fun d => d.uncompressedSize).sum ≤ maxTotalUncompressedBytes
  ids : (a.manifest.sections.map fun d => d.id).Nodup
  sections : ∀ p ∈ a.manifest.sections.zip a.sections, SectionReadable c p.1 p.2

theorem read_written_iff (hz : c.ZstdInverts)
    (hcbor : c.fromCbor (c.toCbor a.manifest) = .ok a.manifest) (h : writeTo c a = .ok bytes) :
    (∃ a', readFrom c bytes = .ok a' ∧ a'.Same a) ↔ Readable c a := by
  obtain ⟨hcount, h⟩ := guard_ok h
  obtain ⟨ws, hws, h⟩ := bind_ok h
  obtain ⟨hfit, h⟩ := guard_ok h
  obtain ⟨out, hout, h⟩ := bind_ok h
  cases h
  rw [not_not] at hcount
  have hread := readSections_written hz hws hout
    (header (c.toCbor a.manifest).length ++ c.toCbor a.manifest)
  have hdescs : ((a.manifest.sections.zip a.sections).map fun p => p.1.toSectionDescriptor) =
      a.manifest.table.sections := by
    rw [← Function.comp_def, ← List.map_map, List.map_fst_zip hcount.le]
    rfl
  have hsecs : ((a.manifest.sections.zip a.sections).map fun p => p.2.toSectionBytes) =
      a.sections.map SectionBytes.toSectionBytes := by
    rw [← Function.comp_def, ← List.map_map, List.map_snd_zip hcount.ge]
  rw [hdescs, hsecs, List.length_append, length_header] at hread
  have htable : checkManifest a.manifest.table = .ok () ↔
      (a.manifest.sections.map fun d => d.uncompressedSize).sum ≤ maxTotalUncompressedBytes ∧
        (a.manifest.sections.map fun d => d.id).Nodup := by
    rw [checkManifest_ok]
    unfold ArtifactManifest.table
    rw [List.map_map, List.map_map]
    rfl
  have hheader : ∀ m pos, _ := fun m pos =>
    readHeader_written out m pos hcbor (Nat.not_lt.mp hfit)
  constructor
  · rintro ⟨a', h, hsame⟩
    obtain ⟨⟨m, pos⟩, hh, h⟩ := bind_ok h
    obtain ⟨secs, hs, h⟩ := bind_ok h
    cases h
    obtain ⟨hman, hcheck, rfl, rfl⟩ := (hheader m pos).mp hh
    have hback : secs = a.sections.map SectionBytes.toSectionBytes := by
      have h := hsame.2
      rw [List.map_map] at h
      exact (List.map_id secs).symm.trans h
    obtain ⟨htotal, hids⟩ := htable.mp hcheck
    exact ⟨hman, htotal, hids, hread.mp (hback ▸ hs)⟩
  · intro hr
    refine ⟨⟨a.manifest, (a.sections.map SectionBytes.toSectionBytes).map fun s => ⟨s, none⟩⟩, ?_, rfl, ?_⟩
    · unfold readFrom
      rw [ok_then ((hheader _ _).mpr ⟨hr.manifest, htable.mpr ⟨hr.total, hr.ids⟩, rfl, rfl⟩),
        ok_then (hread.mpr hr.sections)]
    · rw [List.map_map]
      exact List.map_id _

end Antecedent.Io.Full
