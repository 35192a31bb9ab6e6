import Antecedent.Io.ContainerWrite
import Mathlib.Tactic.Linarith

/-!
# Migrating an artifact

Model of `antecedent-io-core/src/migrate.rs`: an artifact of a supported format is stamped with the stable
format, and one of format 0.1 has its schema section decoded in either shape, encoded again and packed.
CBOR of the two schema shapes is a parameter, as in `Codec`.

* `migrateArtifact_ok`: what a migrated artifact is.
-/

namespace Antecedent.Io.Full

open Core (mapM_ok mapM_total)
open Graph (u32Max)
open Machine (ok_then)

/-- `STABLE_FORMAT`. -/
def stableFormat : FormatVersion := ⟨0, 5⟩

/-- `SUPPORTED_SOURCE_FORMATS`. -/
def supportedSourceFormats : List FormatVersion := [⟨0, 1⟩, ⟨0, 2⟩, ⟨0, 3⟩, ⟨0, 4⟩, ⟨0, 5⟩]

def isSupportedSource (v : FormatVersion) : Bool := supportedSourceFormats.any fun s => s == v

/-! ## Schemas -/

structure SchemaWireV01 where
  variableNames : List String

inductive ScalarTypeWire
  | float64
  | float32
  | int64
  | int32

inductive ValueTypeWire
  | continuous
  | count
  | binary
  | categorical
  | ordinal
  | unspecified
  | vector (width : Nat) (element : ScalarTypeWire)

structure MeasurementSpecWire where
  description : Option String
  noisy : Bool

structure VariableSchemaWire where
  id : Nat
  name : String
  valueType : ValueTypeWire
  roleBits : Nat
  unit : Option String
  categoryDomain : Option Nat
  measurement : MeasurementSpecWire

structure SchemaWire where
  variables' : List VariableSchemaWire

def SchemaWire.variableNames (s : SchemaWire) : List String := s.variables'.map VariableSchemaWire.name

/-- `convert.rs:107-124`. -/
def schemaWireFromV01 (v01 : SchemaWireV01) : SchemaWire :=
  ⟨v01.variableNames.zipIdx.map fun (name, i) =>
    { id := if i ≤ u32Max then i else u32Max
      name := name
      valueType := .unspecified
      roleBits := 0
      unit := none
      categoryDomain := none
      measurement := ⟨none, false⟩ }⟩

/-- The third-party functions, with CBOR of a schema. -/
structure SchemaCodec extends Codec where
  schemaToCbor : SchemaWire → Bytes
  schemaFromCbor : Bytes → Except IoError SchemaWire
  schemaV01FromCbor : Bytes → Except IoError SchemaWireV01

/-- The schema of a section in either shape. -/
def upgraded (c : SchemaCodec) (data : Bytes) : Except IoError SchemaWire :=
  match c.schemaFromCbor data with
  | .ok w => .ok w
  | .error _ => do
    let v01 ← c.schemaV01FromCbor data
    .ok (schemaWireFromV01 v01)

def storedNames (c : SchemaCodec) (data : Bytes) : Except IoError (List String) :=
  match c.schemaFromCbor data with
  | .ok w => .ok w.variableNames
  | .error _ => do
    let v01 ← c.schemaV01FromCbor data
    .ok v01.variableNames

/-! ## Migrating -/

/-- One turn of the loop of `migrate_0_1_to_0_2`. -/
def migrateSection (c : SchemaCodec) (p : SectionDescriptor × SectionBytes) :
    Except IoError (SectionDescriptor × SectionBytes) :=
  if p.1.id = "schema" then do
    let schema ← upgraded c p.2.data
    let bytes := c.schemaToCbor schema
    let desc := sectionDescriptorWithPolicy c.toCodec p.1.id p.1.contentType bytes .auto
    .ok ({ desc with logicalSchema := "schema.v2" }, .new p.2.id bytes)
  else .ok p

/-- Lines 71-104. -/
def migrate01To02 (c : SchemaCodec) (a : EncodedArtifact) : Except IoError EncodedArtifact :=
  if a.manifest.sections.length ≠ a.sections.length then
    .error (.convert "artifact manifest section count does not match its section payloads")
  else do
    let migrated ← (a.manifest.sections.zip a.sections).mapM (migrateSection c)
    .ok ⟨{ a.manifest with sections := migrated.map Prod.fst }, migrated.map Prod.snd⟩

/-- The manifest stamped with the stable format. -/
def stamp (a : EncodedArtifact) : EncodedArtifact :=
  ⟨{ a.manifest with formatVersion := stableFormat, minimumReaderVersion := stableFormat }, a.sections⟩

/-- The least reader version is past the stable format. -/
def NeedsNewerReader (a : EncodedArtifact) : Prop :=
  stableFormat.major < a.manifest.minimumReaderVersion.major ∨
    (a.manifest.minimumReaderVersion.major = stableFormat.major ∧
      stableFormat.minor < a.manifest.minimumReaderVersion.minor)

instance (a : EncodedArtifact) : Decidable (NeedsNewerReader a) :=
  inferInstanceAs (Decidable (_ ∨ (_ ∧ _)))

/-- Lines 40-69. -/
def migrateArtifact (c : SchemaCodec) (a : EncodedArtifact) : Except IoError EncodedArtifact :=
  let source := a.manifest.formatVersion
  if isSupportedSource source = false then .error (.unsupportedFormat source.major source.minor)
  else if NeedsNewerReader a then
    .error (.unsupportedFormat a.manifest.minimumReaderVersion.major a.manifest.minimumReaderVersion.minor)
  else if source = stableFormat then .ok a
  else if source = ⟨0, 1⟩ then do
    let a ← migrate01To02 c a
    .ok (stamp a)
  else .ok (stamp a)

variable {c : SchemaCodec} {a m : EncodedArtifact}

/-! ## What a migrated artifact is -/

/-- The schema section of an artifact of format 0.1 is rebuilt, and nothing else. -/
def Rebuilt (a : EncodedArtifact) (p : SectionDescriptor × SectionBytes) : Prop :=
  a.manifest.formatVersion = ⟨0, 1⟩ ∧ p.1.id = "schema"

def MigratedFrom (c : SchemaCodec) (a : EncodedArtifact) (p q : SectionDescriptor × SectionBytes) : Prop :=
  (¬ Rebuilt a p → q = p) ∧ (Rebuilt a p → migrateSection c p = .ok q)

/-- What `migrate_artifact` accepts. -/
structure Migratable (c : SchemaCodec) (a : EncodedArtifact) : Prop where
  supported : isSupportedSource a.manifest.formatVersion = true
  reader : ¬ NeedsNewerReader a
  schema : ∀ p ∈ a.manifest.sections.zip a.sections, Rebuilt a p → ∃ s, upgraded c p.2.data = .ok s

/-- A migrated artifact: the same manifest but for the versions and the sections, and section for section
what it comes from. -/
structure Migrated (c : SchemaCodec) (a m : EncodedArtifact) : Prop where
  manifest : m.manifest = { a.manifest with
    formatVersion := stableFormat
    minimumReaderVersion := m.manifest.minimumReaderVersion
    sections := m.manifest.sections }
  count : m.manifest.sections.length = m.sections.length
  sections : List.Forall₂ (MigratedFrom c a) (a.manifest.sections.zip a.sections)
    (m.manifest.sections.zip m.sections)

theorem forall₂_self {α : Type} {R : α → α → Prop} (h : ∀ x, R x x) : ∀ l : List α, List.Forall₂ R l l
  | [] => .nil
  | x :: l => .cons (h x) (forall₂_self h l)

theorem migratedFrom_self (h : a.manifest.formatVersion ≠ ⟨0, 1⟩) (p : SectionDescriptor × SectionBytes) :
    MigratedFrom c a p p :=
  ⟨fun _ => rfl, fun hr => absurd hr.1 h⟩

variable {p q : SectionDescriptor × SectionBytes} {α β : Type}

theorem migrateSection_ok :
    (∃ q, migrateSection c p = .ok q) ↔ (p.1.id = "schema" → ∃ s, upgraded c p.2.data = .ok s) := by
  unfold migrateSection
  split_ifs with hid
  · constructor
    · rintro ⟨q, h⟩ -
      obtain ⟨s, hs, -⟩ := bind_ok h
      exact ⟨s, hs⟩
    · intro h
      obtain ⟨s, hs⟩ := h hid
      exact ⟨_, ok_then hs _⟩
  · exact iff_of_true ⟨p, rfl⟩ fun h => absurd h hid

section

variable (hcount : a.manifest.sections.length = a.sections.length)

include hcount

theorem migrate01To02_ok (hold : a.manifest.formatVersion = ⟨0, 1⟩) {b : EncodedArtifact}
    (h : migrate01To02 c a = .ok b) : Migrated c a (stamp b) := by
  unfold migrate01To02 at h
  rw [if_neg (not_not.mpr hcount)] at h
  obtain ⟨l, hl, h⟩ := bind_ok h
  cases h
  have hzip : (l.map Prod.fst).zip (l.map Prod.snd) = l := by
    rw [List.zip_map', List.map_id'' fun _ => rfl]
  refine ⟨rfl, by simp [stamp], ?_⟩
  show List.Forall₂ _ _ ((l.map Prod.fst).zip (l.map Prod.snd))
  rw [hzip]
  refine (mapM_ok hl).imp fun p q hq => ⟨fun hn => ?_, fun _ => hq⟩
  have hid : p.1.id ≠ "schema" := fun hid => hn ⟨hold, hid⟩
  unfold migrateSection at hq
  rw [if_neg hid] at hq
  exact (Except.ok.inj hq).symm

/-- What `migrate_artifact` returns. -/
theorem migrateArtifact_ok (h : migrateArtifact c a = .ok m) :
    Migrated c a m ∧ ¬ NeedsNewerReader m := by
  unfold migrateArtifact at h
  obtain ⟨-, h⟩ := guard_ok h
  obtain ⟨hreader, h⟩ := guard_ok h
  have hstamped : ∀ b, ¬ NeedsNewerReader (stamp b) := fun b => by
    unfold NeedsNewerReader
    exact (by decide : ¬ (stableFormat.major < stableFormat.major ∨
      (stableFormat.major = stableFormat.major ∧ stableFormat.minor < stableFormat.minor)))
  by_cases hstable : a.manifest.formatVersion = stableFormat
  · rw [if_pos hstable] at h
    cases h
    refine ⟨⟨?_, hcount, forall₂_self (migratedFrom_self ?_) _⟩, hreader⟩
    · rw [← hstable]
    · rw [hstable]
      decide
  · rw [if_neg hstable] at h
    split_ifs at h with hold
    · obtain ⟨b, hb, h⟩ := bind_ok h
      cases h
      exact ⟨migrate01To02_ok hcount hold hb, hstamped b⟩
    · cases h
      exact ⟨⟨rfl, hcount, forall₂_self (migratedFrom_self hold) _⟩, hstamped a⟩

/-- `migrate_artifact` refuses what it documents, and nothing else. -/
theorem migrate_returns_iff : (∃ m, migrateArtifact c a = .ok m) ↔ Migratable c a := by
  unfold migrateArtifact
  constructor
  · rintro ⟨m, h⟩
    obtain ⟨hsup, h⟩ := guard_ok h
    obtain ⟨hreader, h⟩ := guard_ok h
    refine ⟨Bool.not_eq_false _ ▸ hsup, hreader, fun p hp hr => ?_⟩
    have hstable : a.manifest.formatVersion ≠ stableFormat := by
      rw [hr.1]
      decide
    rw [if_neg hstable, if_pos hr.1] at h
    obtain ⟨b, hb, -⟩ := bind_ok h
    unfold migrate01To02 at hb
    obtain ⟨-, hb⟩ := guard_ok hb
    obtain ⟨l, hl, -⟩ := bind_ok hb
    obtain ⟨q, -, hq⟩ := Antecedent.Core.mapM_ok_mem hl hp
    exact migrateSection_ok.mp ⟨q, hq⟩ hr.2
  · rintro ⟨hsup, hreader, hschema⟩
    rw [if_neg (by rw [hsup]; decide), if_neg hreader]
    by_cases hstable : a.manifest.formatVersion = stableFormat
    · rw [if_pos hstable]
      exact ⟨a, rfl⟩
    · rw [if_neg hstable]
      split_ifs with hold
      · obtain ⟨l, hl⟩ := @mapM_total _ _ _ (migrateSection c) (a.manifest.sections.zip a.sections)
          fun p hp => migrateSection_ok.mpr fun hid => hschema p hp ⟨hold, hid⟩
        have hrun : migrate01To02 c a =
            .ok ⟨{ a.manifest with sections := l.map Prod.fst }, l.map Prod.snd⟩ := by
          unfold migrate01To02
          rw [if_neg (not_not.mpr hcount), ok_then hl]
        exact ⟨_, ok_then hrun _⟩
      · exact ⟨stamp a, rfl⟩

end

theorem migrateArtifact_again (hm : Migrated c a m) (hreader : ¬ NeedsNewerReader m) :
    migrateArtifact c m = .ok m := by
  have hformat : m.manifest.formatVersion = stableFormat :=
    congrArg ArtifactManifest.formatVersion hm.manifest
  unfold migrateArtifact
  rw [hformat, if_neg (by decide), if_neg hreader, if_pos rfl]

/-! ## What a migration keeps -/

def SchemaInverts (c : SchemaCodec) (a : EncodedArtifact) : Prop :=
  ∀ sec ∈ a.sections, ∀ s, upgraded c sec.data = .ok s → c.schemaFromCbor (c.schemaToCbor s) = .ok s

theorem variableNames_schemaWireFromV01 (v01 : SchemaWireV01) :
    (schemaWireFromV01 v01).variableNames = v01.variableNames := by
  unfold schemaWireFromV01 SchemaWire.variableNames
  rw [List.map_map]
  exact List.zipIdx_map_fst 0 v01.variableNames

theorem storedNames_upgraded {data : Bytes} {s : SchemaWire} (h : upgraded c data = .ok s) :
    storedNames c data = .ok s.variableNames := by
  unfold upgraded at h
  unfold storedNames
  cases hw : c.schemaFromCbor data with
  | ok w =>
    rw [hw] at h
    cases h
    rfl
  | error e =>
    rw [hw] at h
    obtain ⟨v01, hv, h⟩ := bind_ok h
    cases h
    show (c.schemaV01FromCbor data >>= fun v01 => _) = _
    rw [ok_then hv, variableNames_schemaWireFromV01]

/-- A section keeps its id, and all of it unless it is the schema, and the schema keeps its names. -/
structure SectionKept (c : SchemaCodec) (p q : SectionDescriptor × SectionBytes) : Prop where
  descriptor : q.1.id = p.1.id
  id : q.2.id = p.2.id
  other : p.1.id ≠ "schema" → q = p
  names : p.1.id = "schema" → storedNames c q.2.data = storedNames c p.2.data

/-- Only the versions and the schema section change. -/
structure Kept (c : SchemaCodec) (a m : EncodedArtifact) : Prop where
  artifactKind : m.manifest.artifactKind = a.manifest.artifactKind
  libraryVersion : m.manifest.libraryVersion = a.manifest.libraryVersion
  artifactId : m.manifest.artifactId = a.manifest.artifactId
  provenance : m.manifest.provenance = a.manifest.provenance
  count : m.manifest.sections.length = a.manifest.sections.length ∧ m.sections.length = a.sections.length
  sections : List.Forall₂ (SectionKept c) (a.manifest.sections.zip a.sections)
    (m.manifest.sections.zip m.sections)

theorem MigratedFrom.rebuilt (h : MigratedFrom c a p q)
    (hr : Rebuilt a p) : ∃ s, upgraded c p.2.data = .ok s ∧
      q.1 = { sectionDescriptorWithPolicy c.toCodec p.1.id p.1.contentType (c.schemaToCbor s) .auto with
        logicalSchema := "schema.v2" } ∧ q.2 = .new p.2.id (c.schemaToCbor s) := by
  have hq := h.2 hr
  unfold migrateSection at hq
  rw [if_pos hr.2] at hq
  obtain ⟨s, hs, hq⟩ := bind_ok hq
  cases hq
  exact ⟨s, hs, rfl, rfl⟩

theorem MigratedFrom.kept (h : MigratedFrom c a p q)
    (hsec : p.2 ∈ a.sections) (hinv : SchemaInverts c a) : SectionKept c p q := by
  by_cases hr : Rebuilt a p
  · obtain ⟨s, hs, h1, h2⟩ := h.rebuilt hr
    refine ⟨by rw [h1]; rfl, by rw [h2]; rfl, fun hid => absurd hr.2 hid, fun _ => ?_⟩
    rw [storedNames_upgraded hs, h2]
    have hdecoded := hinv p.2 hsec s hs
    show storedNames c (c.schemaToCbor s) = _
    unfold storedNames
    rw [hdecoded]
  · obtain rfl := h.1 hr
    exact ⟨rfl, rfl, fun _ => rfl, fun _ => rfl⟩

theorem forall₂_imp_mem {R S : α → β → Prop} : ∀ {l : List α} {l' : List β},
    (∀ x ∈ l, ∀ y, R x y → S x y) → List.Forall₂ R l l' → List.Forall₂ S l l'
  | _, _, _, .nil => .nil
  | _, _, h, .cons hxy hl => .cons (h _ List.mem_cons_self _ hxy)
      (forall₂_imp_mem (fun x hx => h x (List.mem_cons_of_mem _ hx)) hl)

section

variable (hm : Migrated c a m) (hcount : a.manifest.sections.length = a.sections.length)

include hm hcount

theorem Migrated.counts :
    m.manifest.sections.length = a.manifest.sections.length ∧ m.sections.length = a.sections.length := by
  have h := hm.sections.length_eq
  rw [List.length_zip, List.length_zip, hm.count, hcount] at h
  have hc := hm.count
  omega

theorem Migrated.kept (hinv : SchemaInverts c a) : Kept c a m where
  artifactKind := by rw [hm.manifest]
  libraryVersion := by rw [hm.manifest]
  artifactId := by rw [hm.manifest]
  provenance := by rw [hm.manifest]
  count := hm.counts hcount
  sections := forall₂_imp_mem (fun _ hp _ h => h.kept (List.of_mem_zip hp).2 hinv) hm.sections

/-! ## The size of an encoded manifest -/

end

def SectionDescriptor.text (d : SectionDescriptor) : Nat :=
  d.id.utf8ByteSize + d.contentType.utf8ByteSize + (d.compression.getD "").utf8ByteSize +
    d.logicalSchema.utf8ByteSize

def ArtifactKind.text : ArtifactKind → Nat
  | .other tag => tag.utf8ByteSize
  | _ => 0

def ArtifactManifest.text (m : ArtifactManifest) : Nat :=
  (m.sections.map SectionDescriptor.text).sum + m.artifactKind.text + m.artifactId.utf8ByteSize +
    m.provenance.note.utf8ByteSize

/-- CBOR stores a text as its bytes with at most nine in front, and everything else of a manifest or of a
descriptor, the names of the fields included, in less than a kilobyte; the hash of a section alone
takes 32 bytes. -/
structure Codec.CborSizes (c : Codec) : Prop where
  encoded : ∀ m, (c.toCbor m).length ≤ m.text + 1024 * (m.sections.length + 1)
  decoded : ∀ buf m, c.fromCbor buf = .ok m → m.text + 32 * m.sections.length ≤ buf.length

theorem MigratedFrom.text_le (h : MigratedFrom c a p q) :
    q.1.text ≤ p.1.text + 13 := by
  by_cases hr : Rebuilt a p
  · obtain ⟨s, -, h1, -⟩ := h.rebuilt hr
    have hcompression : (q.1.compression.getD "").utf8ByteSize ≤ 4 := by
      rw [h1]
      show ((chooseOnWire c.toCodec (c.schemaToCbor s) .auto).1.getD "").utf8ByteSize ≤ 4
      rcases chooseOnWire_cases c.toCodec (c.schemaToCbor s) .auto with hno | ⟨w, -, hyes, -⟩
      · rw [hno]
        decide
      · rw [hyes]
        exact (by decide : compressionZstd.utf8ByteSize ≤ 4)
    have hid : q.1.id = p.1.id := by rw [h1]; rfl
    have htype : q.1.contentType = p.1.contentType := by rw [h1]; rfl
    have hschema : q.1.logicalSchema.utf8ByteSize = 9 := by
      rw [h1]
      exact (by decide : "schema.v2".utf8ByteSize = 9)
    unfold SectionDescriptor.text
    rw [hid, htype]
    omega
  · rw [h.1 hr]
    exact Nat.le_add_right _ _

theorem text_sum_le : ∀ {l l' : List (SectionDescriptor × SectionBytes)},
    List.Forall₂ (MigratedFrom c a) l l' →
      (l'.map fun q => q.1.text).sum ≤ (l.map fun p => p.1.text).sum + 13 * l.length
  | _, _, .nil => Nat.zero_le _
  | _, _, .cons hpq hl => by
    have h := hpq.text_le
    have ih := text_sum_le hl
    simp only [List.map_cons, List.sum_cons, List.length_cons]
    omega

theorem map_text_zip {descs : List SectionDescriptor} {secs : List SectionBytes}
    (h : descs.length = secs.length) :
    ((descs.zip secs).map fun p => p.1.text) = descs.map SectionDescriptor.text := by
  rw [← Function.comp_def SectionDescriptor.text Prod.fst, ← List.map_map, List.map_fst_zip h.le]

theorem Migrated.manifest_fits (hm : Migrated c a m) (hs : c.CborSizes)
    (hcount : a.manifest.sections.length = a.sections.length)
    {buf : Bytes} (hbuf : c.fromCbor buf = .ok a.manifest) (hlen : buf.length ≤ maxManifestBytes) :
    (c.toCbor m.manifest).length ≤ u32Max := by
  have hsum := text_sum_le hm.sections
  rw [map_text_zip hcount, map_text_zip hm.count, List.length_zip, hcount, Nat.min_self] at hsum
  have htext : m.manifest.text ≤ a.manifest.text + 13 * a.sections.length := by
    have hrest : m.manifest.artifactKind = a.manifest.artifactKind ∧
        m.manifest.artifactId = a.manifest.artifactId ∧
        m.manifest.provenance = a.manifest.provenance := by
      rw [hm.manifest]
      exact ⟨rfl, rfl, rfl⟩
    unfold ArtifactManifest.text
    rw [hrest.1, hrest.2.1, hrest.2.2]
    omega
  have henc := hs.encoded m.manifest
  have hdec := hs.decoded buf a.manifest hbuf
  rw [(hm.counts hcount).1] at henc
  have hread : a.manifest.text + 32 * a.manifest.sections.length ≤ 16777216 := hdec.trans hlen
  rw [← hcount] at htext
  show _ ≤ 4294967295
  linarith only [htext, henc, hread]

/-! ## Writing what was migrated -/

/-- Every section is below 2^32 bytes. -/
def Small (m : EncodedArtifact) : Prop := ∀ sec ∈ m.sections, sec.data.length ≤ u32Max

/-- Every section but a rebuilt schema is encoded again as it was stored. -/
def Rewritable (c : SchemaCodec) (a : EncodedArtifact) : Prop :=
  ∀ p ∈ a.manifest.sections.zip a.sections, ¬ Rebuilt a p → Reencodes c.toCodec p.1 p.2

theorem MigratedFrom.rebuilt_accepted
    (h : MigratedFrom c a p q) (hr : Rebuilt a p) (hid : p.1.id = p.2.id)
    (hsmall : q.2.data.length ≤ u32Max) :
    ∃ w, checkSection c.toCodec q.1 q.2 = .ok w ∧ w.length ≤ u32Max := by
  obtain ⟨s, -, h1, h2⟩ := h.rebuilt hr
  rw [h2] at hsmall
  have hlen : (c.schemaToCbor s).length ≤ u32Max := hsmall
  rw [h1, h2, hid]
  refine ⟨_, checkSection_packed c.toCodec p.2.id p.1.contentType (c.schemaToCbor s) .auto
    (Or.inl rfl), ?_⟩
  unfold descriptorAndOnWire
  rcases chooseOnWire_cases c.toCodec (c.schemaToCbor s) .auto with hno | ⟨w, -, hyes, hle⟩
  · rw [hno]
    exact hlen
  · rw [hyes]
    exact (hle rfl).trans hlen

/-- A property of the sources of a migration is one of what they become. -/
theorem forall₂_forall_iff {R : α → β → Prop} {P : α → Prop} {Q : β → Prop} :
    ∀ {l : List α} {l' : List β}, (∀ x ∈ l, ∀ y ∈ l', R x y → (Q y ↔ P x)) → List.Forall₂ R l l' →
      ((∀ y ∈ l', Q y) ↔ ∀ x ∈ l, P x)
  | _, _, _, .nil => iff_of_true (fun _ h => nomatch h) (fun _ h => nomatch h)
  | _, _, h, .cons hxy hl => by
    rw [List.forall_mem_cons, List.forall_mem_cons,
      h _ List.mem_cons_self _ List.mem_cons_self hxy,
      forall₂_forall_iff (fun x hx y hy => h x (List.mem_cons_of_mem _ hx) y (List.mem_cons_of_mem _ hy)) hl]

theorem migrate_writable_iff (hs : c.CborSizes) {bytes : Bytes} (hread : readFrom c.toCodec bytes = .ok a)
    (hm : Migrated c a m) (hsmall : Small m) :
    (∃ out, writeTo c.toCodec m = .ok out) ↔ Rewritable c a := by
  obtain ⟨⟨buf, hbuf, hlen⟩, hsections⟩ := readFrom_read hread
  have hcount := hsections.length_eq
  rw [writeTo_accepts_iff, and_iff_right hm.count,
    and_iff_right (hm.manifest_fits hs hcount hbuf hlen)]
  refine forall₂_forall_iff (fun p hp q hq hpq => ?_) hm.sections
  obtain ⟨w, hw⟩ := (List.forall₂_iff_zip.mp hsections).2 hp
  by_cases hr : Rebuilt a p
  · exact iff_of_true (hpq.rebuilt_accepted hr hw.id (hsmall _ (List.of_mem_zip hq).2))
      fun hn => absurd hr hn
  · obtain rfl := hpq.1 hr
    exact hw.accepted_iff.trans ⟨fun h _ => h, fun h => h hr⟩

/-- **Writing, reading and migrating.** A written container is read back as an equal artifact iff it is
readable; an artifact that was read migrates iff it is of a supported format that needs no newer reader and
its schema is decoded, and then only the versions and the schema section change, the names stay, migrating
again changes nothing, and it is written iff every other section is encoded again as it was stored. -/
theorem container_closed_iff (c : SchemaCodec) (a : EncodedArtifact) (hz : c.ZstdInverts) (hs : c.CborSizes)
    (hcbor : c.fromCbor (c.toCbor a.manifest) = .ok a.manifest) (hinv : SchemaInverts c a) :
    (∀ bytes, writeTo c.toCodec a = .ok bytes →
      ((∃ a', readFrom c.toCodec bytes = .ok a' ∧ a'.Same a) ↔ Readable c.toCodec a)) ∧
    ∀ bytes, readFrom c.toCodec bytes = .ok a →
      ((∃ m, migrateArtifact c a = .ok m) ↔ Migratable c a) ∧
      ∀ m, migrateArtifact c a = .ok m → Kept c a m ∧ migrateArtifact c m = .ok m ∧
        (Small m → ((∃ out, writeTo c.toCodec m = .ok out) ↔ Rewritable c a)) := by
  refine ⟨fun bytes h => read_written_iff hz hcbor h, fun bytes hread => ?_⟩
  have hcount := (readFrom_read hread).2.length_eq
  refine ⟨migrate_returns_iff hcount, fun m h => ?_⟩
  obtain ⟨hm, hreader⟩ := migrateArtifact_ok hcount h
  exact ⟨hm.kept hcount hinv, migrateArtifact_again hm hreader, migrate_writable_iff hs hread hm⟩

/-- An uncompressed section `note` of one byte that declares `size` bytes. -/
def noteDescriptor (size : Nat) : SectionDescriptor where
  id := "note"
  compression := none
  compressedSize := 1
  uncompressedSize := size
  blake3 := [7]
  contentType := "cbor"
  encodingVersion := 1
  required := true
  logicalSchema := "v1"

/-- An artifact of format 0.2 with a section `note` for each of the declared sizes. -/
def noteArtifact (sizes : List Nat) : EncodedArtifact where
  manifest := ⟨⟨0, 2⟩, ⟨0, 1⟩, .schemaGraph, ⟨0, 1, 0⟩, "id", sizes.map noteDescriptor, ⟨"note"⟩⟩
  sections := sizes.map fun _ => .new "note" [7]

/-- A codec that decodes every manifest to that of `noteArtifact`. The hash of a byte string is the string,
and so is what it is compressed to. -/
def noteCodec (sizes : List Nat) : SchemaCodec where
  toCbor _ := List.replicate 96 0
  fromCbor b := if b.length < 96 then .error (.cbor "end of file") else .ok (noteArtifact sizes).manifest
  blake3 b := b
  encodeAll b := .ok b
  zstd b max := .ok (b.take max)
  schemaToCbor _ := []
  schemaFromCbor _ := .error (.cbor "invalid type")
  schemaV01FromCbor _ := .error (.cbor "invalid type")

theorem noteCodec_zstd (sizes : List Nat) : (noteCodec sizes).ZstdInverts := by
  intro d w h max hmax
  cases h
  exact congrArg Except.ok (List.take_of_length_le hmax)

theorem noteCodec_sizes {sizes : List Nat}
    (h : (noteArtifact sizes).manifest.text + 32 * (noteArtifact sizes).manifest.sections.length ≤ 96) :
    (noteCodec sizes).CborSizes where
  encoded m := by
    show (List.replicate 96 (0 : UInt8)).length ≤ _
    rw [List.length_replicate]
    omega
  decoded buf m hm := by
    obtain ⟨hlen, hm⟩ := guard_ok hm
    cases hm
    omega

theorem noteCodec_schema (sizes : List Nat) : SchemaInverts (noteCodec sizes) (noteArtifact sizes) :=
  fun _ _ _ h => nomatch h

/-- The container of one `note`. -/
def noteBytes : Bytes := header 96 ++ List.replicate 96 0 ++ ([1, 0, 0, 0] ++ [7] ++ [])

theorem container_closed_note :
    (∃ a', readFrom (noteCodec [1]).toCodec noteBytes = .ok a' ∧ a'.Same (noteArtifact [1])) ∧
      ∃ out, writeTo (noteCodec [1]).toCodec (stamp (noteArtifact [1])) = .ok out := by
  have h := container_closed_iff (noteCodec [1]) (noteArtifact [1]) (noteCodec_zstd _)
    (noteCodec_sizes (by decide)) rfl (noteCodec_schema _)
  constructor
  · refine (h.1 noteBytes rfl).mpr ⟨by decide, by decide, by decide, ?_⟩
    intro p hp
    obtain rfl := List.mem_singleton.mp hp
    exact ⟨by decide, fun hne => absurd rfl hne, fun hne => absurd rfl hne⟩
  · refine ((h.2 noteBytes rfl).2 (stamp (noteArtifact [1])) rfl).2.2 ?_ |>.mpr ?_
    · intro sec hsec
      obtain rfl := List.mem_singleton.mp hsec
      decide
    · intro p hp _
      obtain rfl := List.mem_singleton.mp hp
      exact ⟨fun _ => rfl, fun hne => absurd rfl hne⟩

/-- Two sections of one id are written and not read; a section that declares two sizes is read and
migrated and not written. -/
theorem not_container_closed :
    (∃ bytes, writeTo (noteCodec [1, 1]).toCodec (noteArtifact [1, 1]) = .ok bytes ∧
      readFrom (noteCodec [1, 1]).toCodec bytes = .error (.manifestMismatch "duplicate section id")) ∧
    readFrom (noteCodec [2]).toCodec noteBytes = .ok (noteArtifact [2]) ∧
    migrateArtifact (noteCodec [2]) (noteArtifact [2]) = .ok (stamp (noteArtifact [2])) ∧
    writeTo (noteCodec [2]).toCodec (stamp (noteArtifact [2])) =
      .error (.manifestMismatch "section logical size mismatch") :=
  ⟨⟨_, rfl, rfl⟩, rfl, rfl, rfl⟩

end Antecedent.Io.Full
