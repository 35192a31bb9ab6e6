import Antecedent.Io.ContainerAgree

/-!
# Agreement of the four readers

* `locateSection_kept`, `run_kept`: what a mapped reader remembers stays true over every run of loads.
* **`readers_agree_iff`**: after a successful `read_from` the readers agree on a section exactly when it
  is compressed or declares one size; two answers never differ.
-/

namespace Antecedent.Io

variable {c : Codec} {bytes : Bytes}

/-! ## The mapped reader -/

namespace MappedArtifactReader

def table (r : MappedArtifactReader) : List Section := r.index.zip r.manifest.sections

/-- What the reader remembers as verified has the declared hash. -/
def Sound (c : Codec) (r : MappedArtifactReader) : Prop :=
  ∀ pos e, r.table[pos]? = some e → r.verified.getD pos false = true →
    c.blake3 (onWire r.bytes e) = e.2.blake3

/-- `r'` reads the same artifact as `r` and is sound. -/
structure Kept (c : Codec) (r r' : MappedArtifactReader) : Prop where
  bytes_eq : r'.bytes = r.bytes
  manifest_eq : r'.manifest = r.manifest
  index_eq : r'.index = r.index
  sound : Sound c r'

variable {r : MappedArtifactReader}

theorem Kept.refl (h : Sound c r) : Kept c r r := ⟨rfl, rfl, rfl, h⟩

theorem Kept.trans {r r' r'' : MappedArtifactReader} (h : Kept c r r') (h' : Kept c r' r'') :
    Kept c r r'' :=
  ⟨h'.bytes_eq.trans h.bytes_eq, h'.manifest_eq.trans h.manifest_eq, h'.index_eq.trans h.index_eq,
    h'.sound⟩

variable {r : MappedArtifactReader} {pos : Nat} {e : Section} {id : String}

theorem locateSection_kept (hs : Sound c r) (he : r.table[pos]? = some e) :
    Kept c r (r.locateSection c pos e.1 e.2 id).1 := by
  unfold locateSection
  split_ifs with hr hv hh
  · exact .refl hs
  · exact .refl hs
  · exact .refl hs
  · refine ⟨rfl, rfl, rfl, fun pos' e' he' hv' => ?_⟩
    by_cases hp : pos = pos'
    · subst hp
      obtain rfl := Option.some.inj (he.symm.trans he')
      exact not_not.mp hh
    · refine hs pos' e' he' ?_
      rw [List.getD_eq_getElem?_getD, List.getElem?_set_ne hp] at hv'
      rwa [List.getD_eq_getElem?_getD]

theorem locateSection_ok (hs : Sound c r) (he : r.table[pos]? = some e) {w : Bytes}
    (h : (r.locateSection c pos e.1 e.2 id).2 = .ok w) :
    w = onWire r.bytes e ∧ (onWire r.bytes e).length = e.1.onWireLen ∧
      c.blake3 (onWire r.bytes e) = e.2.blake3 := by
  unfold locateSection at h
  split_ifs at h with hr hv hh
  · cases h
    refine ⟨rfl, ?_, hs pos e he hv⟩
    unfold onWire slice
    rw [List.length_take, List.length_drop]
    omega
  · cases h
    refine ⟨rfl, ?_, not_not.mp hh⟩
    unfold onWire slice
    rw [List.length_take, List.length_drop]
    omega

theorem locateSection_whole (hw : Whole c r.bytes e) (hoff : e.1.fileOffset ≤ r.bytes.length) :
    (r.locateSection c pos e.1 e.2 id).2 = .ok (onWire r.bytes e) := by
  have hfit := hw.fits
  unfold onWire slice at hfit
  rw [List.length_take, List.length_drop] at hfit
  have hr : ¬ r.bytes.length < e.1.fileOffset + e.1.onWireLen := by omega
  have hh : ¬ c.blake3 (slice r.bytes e.1.fileOffset e.1.onWireLen) ≠ e.2.blake3 :=
    not_not.mpr hw.hash
  unfold locateSection
  rw [if_neg hr, if_neg hh]
  split_ifs with hv
  · rfl
  · rfl

theorem loadSectionMapped_kept (hs : Sound c r) : Kept c r (r.loadSectionMapped c id).1 := by
  unfold loadSectionMapped
  split
  · exact .refl hs
  · rename_i entry desc pos hl
    obtain ⟨hpos, -⟩ := lookupSection_ok hl
    have hk : Kept c r (r.locateSection c pos entry desc id).1 := locateSection_kept hs hpos
    by_cases hc : desc.compression.isSome = true
    · rw [if_pos hc]
      exact .refl hs
    · rw [if_neg hc]
      split
      · rename_i r' err heq
        rw [heq] at hk
        exact hk
      · rename_i r' w heq
        rw [heq] at hk
        split_ifs <;> exact hk

theorem loadSection_kept (hs : Sound c r) : Kept c r (r.loadSection c id).1 := by
  unfold loadSection
  split
  · exact .refl hs
  · rename_i entry desc pos hl
    obtain ⟨hpos, -⟩ := lookupSection_ok hl
    have hk : Kept c r (r.locateSection c pos entry desc id).1 := locateSection_kept hs hpos
    split_ifs with hc
    · exact loadSectionMapped_kept hs
    · split
      · rename_i r' err heq
        rw [heq] at hk
        exact hk
      · rename_i r' w heq
        rw [heq] at hk
        exact hk

theorem step_kept (hs : Sound c r) (load : Load) : Kept c r (r.step c load) := by
  cases load with
  | section' id => exact loadSection_kept hs
  | mapped id => exact loadSectionMapped_kept hs

/-- **What a mapped reader remembers stays true over every run of loads.** -/
theorem run_kept : ∀ (loads : List Load) {r : MappedArtifactReader}, Sound c r →
    Kept c r (r.run c loads)
  | [], _, hs => .refl hs
  | load :: loads, _, hs => (step_kept hs load).trans (run_kept loads (step_kept hs load).sound)

variable {d : Bytes}

theorem loadSectionMapped_ok (hs : Sound c r)
    (h : (r.loadSectionMapped c id).2 = .ok d) : ∃ e ∈ r.table, e.1.id = id ∧
      e.2.compression = none ∧ Logical c r.bytes e d ∧ e.1.onWireLen = e.2.uncompressedSize := by
  unfold loadSectionMapped at h
  split at h
  · cases h
  · rename_i entry desc pos hl
    obtain ⟨hpos, hid⟩ := lookupSection_ok hl
    by_cases hc : desc.compression.isSome = true
    · rw [if_pos hc] at h
      cases h
    rw [if_neg hc] at h
    have hnone : desc.compression = none := by
      rwa [Bool.not_eq_true, Option.isSome_eq_false_iff, Option.isNone_iff_eq_none] at hc
    split at h
    · cases h
    · rename_i r' w heq
      split_ifs at h with hsize
      cases h
      obtain ⟨rfl, -, -⟩ := locateSection_ok hs hpos (congrArg Prod.snd heq)
      refine ⟨(entry, desc), List.mem_of_getElem? hpos, hid, hnone, ?_, not_not.mp hsize⟩
      unfold Logical
      simp only
      rw [hnone]
      rfl

theorem loadSection_ok (hs : Sound c r) (h : (r.loadSection c id).2 = .ok d) :
    ∃ e ∈ r.table, e.1.id = id ∧ Logical c r.bytes e d ∧
      (e.2.compression = none → e.1.onWireLen = e.2.uncompressedSize) := by
  unfold loadSection at h
  split at h
  · cases h
  · rename_i entry desc pos hl
    obtain ⟨hpos, hid⟩ := lookupSection_ok hl
    split_ifs at h with hc
    · obtain ⟨e, he, hid, -, hd, hsize⟩ := loadSectionMapped_ok hs h
      exact ⟨e, he, hid, hd, fun _ => hsize⟩
    · split at h
      · cases h
      · rename_i r' w heq
        obtain ⟨rfl, -, -⟩ := locateSection_ok hs hpos (congrArg Prod.snd heq)
        refine ⟨(entry, desc), List.mem_of_getElem? hpos, hid, h, fun hnone => ?_⟩
        exact absurd (Option.isNone_iff_eq_none.mpr hnone) hc

theorem loadSection_loads (hl : lookupSection r.index r.manifest.sections id = .ok (e, pos))
    (hw : Whole c r.bytes e) (hoff : e.1.fileOffset ≤ r.bytes.length) (hd : Logical c r.bytes e d)
    (hsize : e.2.compression = none → e.1.onWireLen = e.2.uncompressedSize) :
    (r.loadSection c id).2 = .ok d := by
  obtain ⟨entry, desc⟩ := e
  have hloc : (r.locateSection c pos entry desc id).2 = .ok (onWire r.bytes (entry, desc)) :=
    locateSection_whole hw hoff
  simp only at hsize hd
  unfold loadSection
  rw [hl]
  simp only
  by_cases hc : desc.compression.isNone = true
  · have hnone := Option.isNone_iff_eq_none.mp hc
    have hd' : onWire r.bytes (entry, desc) = d := by
      unfold Logical at hd
      simp only at hd
      rw [hnone] at hd
      exact Except.ok.inj hd
    rw [if_pos hc]
    unfold loadSectionMapped
    rw [hl]
    simp only
    rw [if_neg (by rw [hnone]; exact Bool.false_ne_true)]
    split
    · rename_i r' err heq
      exact absurd (hloc.symm.trans (congrArg Prod.snd heq)) (by simp)
    · rename_i r' w heq
      obtain rfl := Except.ok.inj (hloc.symm.trans (congrArg Prod.snd heq))
      rw [if_neg (not_not.mpr (hsize hnone)), hd']
  · rw [if_neg hc]
    split
    · rename_i r' err heq
      exact absurd (hloc.symm.trans (congrArg Prod.snd heq)) (by simp)
    · rename_i r' w heq
      obtain rfl := Except.ok.inj (hloc.symm.trans (congrArg Prod.snd heq))
      exact hd

theorem fromBacking_ok (h : fromBacking c bytes = .ok r) :
    r.bytes = bytes ∧ indexSeekable c bytes = .ok (r.manifest, r.index) ∧ Sound c r := by
  unfold fromBacking at h
  obtain ⟨opened, ho, h⟩ := bind_ok h
  cases h
  refine ⟨rfl, ho, fun pos e _ hv => ?_⟩
  simp only [List.getD_eq_getElem?_getD, List.getElem?_map] at hv
  cases hg : opened.2[pos]? with
  | none => simp [hg] at hv
  | some _ => simp [hg] at hv

end MappedArtifactReader

/-! ## The seekable reader -/

namespace ArtifactReader

variable {r : ArtifactReader} {id : String}

variable {d : Bytes}

theorem loadSection_ok (h : r.loadSection c id = .ok d) :
    ∃ e ∈ r.index.zip r.manifest.sections, e.1.id = id ∧ Logical c r.bytes e d := by
  unfold loadSection at h
  obtain ⟨found, hf, h⟩ := bind_ok h
  obtain ⟨hpos, hid⟩ := lookupSection_ok hf
  obtain ⟨-, h⟩ := guard_ok h
  obtain ⟨w, hw, h⟩ := bind_ok h
  obtain ⟨-, rfl⟩ := readExact_ok.mp hw
  obtain ⟨-, h⟩ := guard_ok h
  exact ⟨found.1, List.mem_of_getElem? hpos, hid, h⟩

theorem loadSection_loads {e : Section} {pos : Nat}
    (hl : lookupSection r.index r.manifest.sections id = .ok (e, pos)) (hw : Whole c r.bytes e)
    (hd : Logical c r.bytes e d) : r.loadSection c id = .ok d := by
  have hfit : (slice r.bytes e.1.fileOffset e.1.onWireLen).length = e.1.onWireLen := hw.fits
  have hh : ¬ c.blake3 (slice r.bytes e.1.fileOffset e.1.onWireLen) ≠ e.2.blake3 :=
    not_not.mpr hw.hash
  unfold loadSection
  rw [hl]
  show (if maxSectionBytes < e.1.onWireLen then _ else (_ : Except IoError Bytes)) = _
  rw [if_neg (Nat.not_lt.mpr hw.small), readExact_ok.mpr ⟨hfit, rfl⟩]
  show (if c.blake3 (slice r.bytes e.1.fileOffset e.1.onWireLen) ≠ e.2.blake3
    then _ else (_ : Except IoError Bytes)) = _
  rw [if_neg hh]
  exact hd

theorem openSeek_ok {r : ArtifactReader} (h : openSeek c bytes = .ok r) :
    r.bytes = bytes ∧ indexSeekable c bytes = .ok (r.manifest, r.index) := by
  unfold openSeek at h
  obtain ⟨opened, ho, h⟩ := bind_ok h
  cases h
  exact ⟨rfl, ho⟩

end ArtifactReader

/-! ## What any reader returns -/

/-- `bytes` is an artifact that holds `d` in section `id`. -/
def Holds (c : Codec) (bytes : Bytes) (id : String) (d : Bytes) : Prop :=
  ∃ opened, indexSeekable c bytes = .ok opened ∧
    ∃ e ∈ opened.2.zip opened.1.sections, e.1.id = id ∧ Logical c bytes e d

variable {d : Bytes} {desc : SectionDescriptor} {id : String}

/-- **A section holds one thing.** -/
theorem holds_unique {d' : Bytes} (h : Holds c bytes id d)
    (h' : Holds c bytes id d') : d = d' := by
  obtain ⟨opened, ho, e, he, hid, hd⟩ := h
  obtain ⟨opened', ho', e', he', hid', hd'⟩ := h'
  obtain rfl := Except.ok.inj (ho.symm.trans ho')
  obtain ⟨pos, hh, hi⟩ := indexSeekable_ok.mp ho
  obtain ⟨hids, hmem⟩ := indexSections_mem hi
  obtain rfl := zip_unique hids (header_ids hh) he he'
    ((hmem e he).1.symm.trans (hid.trans (hid'.symm.trans (hmem e' he').1)))
  exact hd.unique hd'

/-- A reader returns `d` for section `id`: `read_from`, `read_selective` with any ids, the seekable
reader, or a mapped reader after any run of loads, through either of its loads. -/
inductive Returns (c : Codec) (bytes : Bytes) (id : String) (d : Bytes) : Prop
  | readFrom {art} : readFrom c bytes = .ok art → ⟨id, d⟩ ∈ art.sections → Returns c bytes id d
  | readSelective {art want} : readSelective c bytes want = .ok art → ⟨id, d⟩ ∈ art.sections →
      Returns c bytes id d
  | seek {r} : ArtifactReader.openSeek c bytes = .ok r → r.loadSection c id = .ok d →
      Returns c bytes id d
  | load {r} (loads) : MappedArtifactReader.fromBacking c bytes = .ok r →
      ((r.run c loads).loadSection c id).2 = .ok d → Returns c bytes id d
  | view {r} (loads) : MappedArtifactReader.fromBacking c bytes = .ok r →
      ((r.run c loads).loadSectionMapped c id).2 = .ok d → Returns c bytes id d

theorem holds_of_sections {want : String → Bool} {header : ArtifactManifest × Nat}
    (hh : readHeaderAndManifest c bytes = .ok header) {secs : List SectionBytes}
    (hs : readSections c bytes want header.2 header.1.sections = .ok secs)
    (hm : ⟨id, d⟩ ∈ secs) : Holds c bytes id d := by
  obtain ⟨index, hi, -, -, hback⟩ := readSections_spec hs
  obtain ⟨e, he, hid, hd⟩ := hback _ hm
  exact ⟨(header.1, index), indexSeekable_ok.mpr ⟨header.2, hh, hi⟩, e, he,
    ((indexSections_mem hi).2 e he).1.trans hid, hd⟩

theorem Returns.holds (h : Returns c bytes id d) :
    Holds c bytes id d := by
  cases h with
  | readFrom hr hm =>
    unfold Io.readFrom at hr
    obtain ⟨header, hh, hr⟩ := bind_ok hr
    obtain ⟨secs, hs, hr⟩ := bind_ok hr
    cases hr
    exact holds_of_sections hh hs hm
  | readSelective hr hm =>
    unfold Io.readSelective at hr
    obtain ⟨header, hh, hr⟩ := bind_ok hr
    obtain ⟨secs, hs, hr⟩ := bind_ok hr
    cases hr
    exact holds_of_sections hh hs hm
  | seek hr hl =>
    obtain ⟨rfl, ho⟩ := ArtifactReader.openSeek_ok hr
    obtain ⟨e, he, hid, hd⟩ := ArtifactReader.loadSection_ok hl
    exact ⟨_, ho, e, he, hid, hd⟩
  | load loads hr hl =>
    obtain ⟨rfl, ho, hsound⟩ := MappedArtifactReader.fromBacking_ok hr
    have hk := MappedArtifactReader.run_kept loads hsound
    obtain ⟨e, he, hid, hd, -⟩ := MappedArtifactReader.loadSection_ok hk.sound hl
    unfold MappedArtifactReader.table at he
    rw [hk.index_eq, hk.manifest_eq] at he
    rw [hk.bytes_eq] at hd
    exact ⟨_, ho, e, he, hid, hd⟩
  | view loads hr hl =>
    obtain ⟨rfl, ho, hsound⟩ := MappedArtifactReader.fromBacking_ok hr
    have hk := MappedArtifactReader.run_kept loads hsound
    obtain ⟨e, he, hid, -, hd, -⟩ := MappedArtifactReader.loadSectionMapped_ok hk.sound hl
    unfold MappedArtifactReader.table at he
    rw [hk.index_eq, hk.manifest_eq] at he
    rw [hk.bytes_eq] at hd
    exact ⟨_, ho, e, he, hid, hd⟩

/-! ## Agreement -/

/-- The readers agree on section `id` of an artifact that `read_from` reads: all of them return the
same bytes, as many as the manifest declares. -/
def Agree (c : Codec) (bytes : Bytes) (art : EncodedArtifact) (desc : SectionDescriptor) : Prop :=
  ∃ d, ⟨desc.id, d⟩ ∈ art.sections ∧ d.length = desc.uncompressedSize ∧
    (∃ r, ArtifactReader.openSeek c bytes = .ok r ∧ r.loadSection c desc.id = .ok d) ∧
    (∃ r, MappedArtifactReader.fromBacking c bytes = .ok r ∧
      ∀ loads, ((r.run c loads).loadSection c desc.id).2 = .ok d) ∧
    ∀ want, desc.id ∈ want → ∃ art', readSelective c bytes want = .ok art' ∧
      ⟨desc.id, d⟩ ∈ art'.sections

/-- The declared sizes of an uncompressed section are equal. -/
def OneSize (desc : SectionDescriptor) : Prop :=
  desc.compression = none → desc.compressedSize = desc.uncompressedSize

theorem Logical.length_eq {e : Section} (h : Logical c bytes e d) (hw : Whole c bytes e)
    (hsize : e.2.compression = none → e.1.onWireLen = e.2.uncompressedSize) :
    d.length = e.2.uncompressedSize := by
  unfold Logical decodeOnWire at h
  split at h
  · rename_i hnone
    cases h
    rw [hw.fits, hsize hnone]
  · split_ifs at h
    obtain ⟨max, hm, h⟩ := bind_ok h
    obtain ⟨logical, -, h⟩ := bind_ok h
    obtain ⟨hl, h⟩ := guard_ok h
    cases h
    unfold decodeSizeCap at hm
    obtain ⟨-, hm⟩ := guard_ok hm
    cases hm
    exact not_not.mp hl

/-- What a successful `read_from` says about every section. -/
theorem readFrom_ok {art : EncodedArtifact} (h : readFrom c bytes = .ok art) :
    ∃ pos index, readHeaderAndManifest c bytes = .ok (art.manifest, pos) ∧
      indexSections bytes pos art.manifest.sections = .ok index ∧
      ∀ e ∈ index.zip art.manifest.sections, Whole c bytes e ∧
        ∃ d, Logical c bytes e d ∧ ⟨e.2.id, d⟩ ∈ art.sections := by
  unfold readFrom at h
  obtain ⟨header, hh, h⟩ := bind_ok h
  obtain ⟨secs, hs, h⟩ := bind_ok h
  cases h
  obtain ⟨index, hi, hall, hgive, -⟩ := readSections_spec hs
  exact ⟨header.2, index, hh, hi, fun e he => ⟨hall e he, hgive e he rfl⟩⟩

/-- The entry `e` of a section of an artifact that `read_from` reads. -/
structure Read (c : Codec) (bytes : Bytes) (art : EncodedArtifact) (index : List SectionIndexEntry)
    (e : Section) : Prop where
  opened : indexSeekable c bytes = .ok (art.manifest, index)
  mem : e ∈ index.zip art.manifest.sections
  id_eq : e.1.id = e.2.id
  len_eq : e.1.onWireLen = e.2.compressedSize
  offset : e.1.fileOffset ≤ bytes.length
  all : ∀ f ∈ index.zip art.manifest.sections, Whole c bytes f ∧
    ∃ d, Logical c bytes f d ∧ ⟨f.2.id, d⟩ ∈ art.sections
  unique : ∀ f ∈ index.zip art.manifest.sections, f.1.id = e.2.id → f = e

theorem exists_read {art : EncodedArtifact} (h : readFrom c bytes = .ok art)
    (hdesc : desc ∈ art.manifest.sections) :
    ∃ index e, Read c bytes art index e ∧ e.2 = desc := by
  obtain ⟨pos, index, hh, hi, hall⟩ := readFrom_ok h
  obtain ⟨hids, hmem⟩ := indexSections_mem hi
  have hlen : index.length = art.manifest.sections.length := by
    have := congrArg List.length hids
    rwa [List.length_map, List.length_map] at this
  obtain ⟨e, he, rfl⟩ : ∃ e ∈ index.zip art.manifest.sections, e.2 = desc := by
    have hsnd : (index.zip art.manifest.sections).map Prod.snd = art.manifest.sections :=
      List.map_snd_zip hlen.ge
    rw [← hsnd] at hdesc
    exact List.mem_map.mp hdesc
  obtain ⟨hid, hcomp, hoff⟩ := hmem e he
  exact ⟨index, e, ⟨indexSeekable_ok.mpr ⟨pos, hh, hi⟩, he, hid, hcomp, hoff, hall,
    fun f hf hfid => zip_unique hids (header_ids hh) hf he ((hmem f hf).1.symm.trans hfid)⟩, rfl⟩

namespace Read

variable {art : EncodedArtifact} {index : List SectionIndexEntry} {e : Section}

/-- The mapped reader checks the size of an uncompressed section. -/
theorem oneSize (h : Read c bytes art index e) (ha : Agree c bytes art e.2) : OneSize e.2 := by
  obtain ⟨d, -, -, -, ⟨r, hr, hload⟩, -⟩ := ha
  obtain ⟨rfl, ho, hsound⟩ := MappedArtifactReader.fromBacking_ok hr
  obtain ⟨hman, hind⟩ := Prod.mk.inj (Except.ok.inj (h.opened.symm.trans ho))
  obtain ⟨f, hf, hfid, -, hsize⟩ := MappedArtifactReader.loadSection_ok hsound (hload [])
  unfold MappedArtifactReader.table at hf
  rw [← hman, ← hind] at hf
  obtain rfl := h.unique f hf hfid
  exact fun hnone => h.len_eq.symm.trans (hsize hnone)

theorem lookup (h : Read c bytes art index e) :
    ∃ pos, lookupSection index art.manifest.sections e.2.id = .ok (e, pos) := by
  obtain ⟨⟨f, pos⟩, hfound⟩ := lookupSection_found h.mem
  rw [h.id_eq] at hfound
  obtain ⟨hpos, hfid⟩ := lookupSection_ok hfound
  obtain rfl := h.unique f (List.mem_of_getElem? hpos) hfid
  exact ⟨pos, hfound⟩

variable {d : Bytes}

section

variable (h : Read c bytes art index e) (hd : Logical c bytes e d)

include h hd

theorem seek_loads : ∃ r, ArtifactReader.openSeek c bytes = .ok r ∧ r.loadSection c e.2.id = .ok d := by
  obtain ⟨pos, hl⟩ := h.lookup
  refine ⟨⟨bytes, art.manifest, index⟩, ?_,
    ArtifactReader.loadSection_loads hl (h.all e h.mem).1 hd⟩
  unfold ArtifactReader.openSeek
  rw [h.opened]
  rfl

theorem mapped_loads (hsize : e.2.compression = none → e.1.onWireLen = e.2.uncompressedSize) :
    ∃ r, MappedArtifactReader.fromBacking c bytes = .ok r ∧
      ∀ loads, ((r.run c loads).loadSection c e.2.id).2 = .ok d := by
  obtain ⟨pos, hl⟩ := h.lookup
  have hr : MappedArtifactReader.fromBacking c bytes =
      .ok ⟨bytes, art.manifest, index, index.map fun _ => false⟩ := by
    unfold MappedArtifactReader.fromBacking
    rw [h.opened]
    rfl
  refine ⟨_, hr, fun loads => ?_⟩
  obtain ⟨-, -, hsound⟩ := MappedArtifactReader.fromBacking_ok hr
  have hk := MappedArtifactReader.run_kept loads hsound
  have hb := hk.bytes_eq
  simp only at hb
  refine MappedArtifactReader.loadSection_loads (by rw [hk.index_eq, hk.manifest_eq]; exact hl) ?_ ?_
    ?_ hsize
  · rw [hb]
    exact (h.all e h.mem).1
  · rw [hb]
    exact h.offset
  · rw [hb]
    exact hd

theorem selective_reads {want : List String} (hwant : e.2.id ∈ want) :
    ∃ art', readSelective c bytes want = .ok art' ∧
      ⟨e.2.id, d⟩ ∈ art'.sections := by
  obtain ⟨pos, hh, hi⟩ := indexSeekable_ok.mp h.opened
  have hlog : ∀ f ∈ index.zip art.manifest.sections, want.contains f.2.id = true →
      ∃ d, Logical c bytes f d := fun f hf _ => (h.all f hf).2.imp fun _ hd => hd.1
  obtain ⟨secs, hs⟩ := readSections_ok hi (fun f hf => (h.all f hf).1) hlog
  obtain ⟨index', hi', -, hgive, -⟩ := readSections_spec hs
  obtain rfl := Except.ok.inj (hi.symm.trans hi')
  obtain ⟨d', hd', hm⟩ := hgive e h.mem (List.contains_iff_mem.mpr hwant)
  obtain rfl := hd.unique hd'
  refine ⟨⟨art.manifest, secs⟩, ?_, hm⟩
  unfold readSelective
  rw [hh]
  show (readSections c bytes _ pos art.manifest.sections >>= fun s => _) = _
  rw [hs]
  rfl

end

theorem agree (h : Read c bytes art index e) (hone : OneSize e.2) : Agree c bytes art e.2 := by
  obtain ⟨hw, d, hd, hm⟩ := h.all e h.mem
  have hsize : e.2.compression = none → e.1.onWireLen = e.2.uncompressedSize := fun hnone =>
    h.len_eq.trans (hone hnone)
  exact ⟨d, hm, hd.length_eq hw hsize, h.seek_loads hd, h.mapped_loads hd hsize,
    fun want hwant => h.selective_reads hd hwant⟩

end Read

theorem agree_iff {art : EncodedArtifact} (h : readFrom c bytes = .ok art)
    (hdesc : desc ∈ art.manifest.sections) :
    Agree c bytes art desc ↔ OneSize desc := by
  obtain ⟨index, e, hread, rfl⟩ := exists_read h hdesc
  exact ⟨hread.oneSize, hread.agree⟩

/-- **The readers agree on a section exactly when it is compressed or declares one size**, and two
answers about a section never differ. -/
theorem readers_agree_iff (c : Codec) (bytes : Bytes) :
    (∀ art, readFrom c bytes = .ok art → ∀ desc ∈ art.manifest.sections,
      (Agree c bytes art desc ↔ OneSize desc)) ∧
    ∀ id d d', Returns c bytes id d → Returns c bytes id d' → d = d' :=
  ⟨fun _ h _ hdesc => agree_iff h hdesc, fun _ _ _ h h' => holds_unique h.holds h'.holds⟩

/-- An uncompressed section `note` that declares one byte on the wire and `size` bytes. -/
def note (size : Nat) : SectionDescriptor := ⟨"note", none, 1, size, [7]⟩

/-- A codec that decodes every manifest to one `note`; the hash of a byte string is the string. -/
def noteCodec (size : Nat) : Codec where
  fromCbor _ := .ok ⟨[note size]⟩
  blake3 b := b
  zstd b _ := .ok b

/-- A container: the header, a manifest of one byte, and a section of the byte 7. -/
def noteBytes : Bytes := magicBytes ++ [1, 0, 0, 0] ++ [1, 0, 0, 0] ++ [0] ++ [1, 0, 0, 0] ++ [7]

theorem readers_agree_note :
    Agree (noteCodec 1) noteBytes ⟨⟨[note 1]⟩, [⟨"note", [7]⟩]⟩ (note 1) :=
  ((readers_agree_iff (noteCodec 1) noteBytes).1 ⟨⟨[note 1]⟩, [⟨"note", [7]⟩]⟩ rfl (note 1)
    List.mem_cons_self).mpr fun _ => rfl

/-- `read_from` returns a section that declares two sizes, and the readers do not agree on it. -/
theorem readers_disagree :
    readFrom (noteCodec 2) noteBytes = .ok ⟨⟨[note 2]⟩, [⟨"note", [7]⟩]⟩ ∧
      ¬ Agree (noteCodec 2) noteBytes ⟨⟨[note 2]⟩, [⟨"note", [7]⟩]⟩ (note 2) := by
  have hread : readFrom (noteCodec 2) noteBytes = .ok ⟨⟨[note 2]⟩, [⟨"note", [7]⟩]⟩ := rfl
  refine ⟨hread, fun h => ?_⟩
  exact absurd ((agree_iff hread List.mem_cons_self).mp h rfl) (by decide)

end Antecedent.Io
