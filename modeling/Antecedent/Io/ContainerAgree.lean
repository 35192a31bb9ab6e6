import Antecedent.Core.Catalog
import Antecedent.Io.ContainerReaders

/-!
# What the readers find

Every reader finds a section where the index puts it. What a section holds is then a function of the
bytes, the entry and the descriptor (`Logical`); the readers differ in what they check before they
return it.

* `readSections_spec`, `readSections_ok`: the streaming readers against the index.
* `indexSeekable_ok`: the index is of the sections of the manifest, in order.
* `lookupSection_ok`, `lookupSection_found`: an id names one entry.
-/

namespace Antecedent.Io

open Graph (u32Max)

abbrev Section := SectionIndexEntry × SectionDescriptor

def onWire (bytes : Bytes) (e : Section) : Bytes := slice bytes e.1.fileOffset e.1.onWireLen

def Logical (c : Codec) (bytes : Bytes) (e : Section) (d : Bytes) : Prop :=
  decodeOnWire c (onWire bytes e) e.2.compression e.2.id e.2.uncompressedSize = .ok d

/-- The bytes of a section are all there, are not too many, and have the declared hash. -/
structure Whole (c : Codec) (bytes : Bytes) (e : Section) : Prop where
  fits : (onWire bytes e).length = e.1.onWireLen
  small : e.1.onWireLen ≤ maxSectionBytes
  hash : c.blake3 (onWire bytes e) = e.2.blake3

theorem Logical.unique {c : Codec} {bytes : Bytes} {e : Section} {d d' : Bytes}
    (h : Logical c bytes e d) (h' : Logical c bytes e d') : d = d' :=
  Except.ok.inj (h.symm.trans h')

/-! ## Reading -/

variable {pos : Nat} {r : Bytes × Nat} {desc : SectionDescriptor}

theorem readExact_ok {bytes : Bytes} {len : Nat} :
    readExact bytes pos len = .ok r ↔
      (slice bytes pos len).length = len ∧ r = (slice bytes pos len, pos + len) := by
  unfold readExact
  split_ifs with h
  · rw [Except.ok.injEq, eq_comm]
    exact (and_iff_right h).symm
  · exact iff_of_false (by simp) fun hr => h hr.1

theorem slice_append (bytes : Bytes) (pos n m : Nat) :
    slice bytes pos n ++ slice bytes (pos + n) m = slice bytes pos (n + m) := by
  unfold slice
  rw [List.take_add, List.drop_drop]

/-- The length in front of a section is the declared one. -/
structure Framed (bytes : Bytes) (pos : Nat) (desc : SectionDescriptor) : Prop where
  there : (slice bytes pos 4).length = 4
  declared : leU32 (slice bytes pos 4) = desc.compressedSize

/-- The entry of a section whose length stands at `pos`. -/
def entryAt (pos : Nat) (desc : SectionDescriptor) : Section :=
  (⟨desc.id, pos + 4, desc.compressedSize⟩, desc)

variable {c : Codec} {bytes : Bytes} {want : String → Bool}

theorem readSectionLen_ok {r : Nat × Nat} :
    readSectionLen bytes pos desc = .ok r ↔ Framed bytes pos desc ∧
      desc.compressedSize ≤ maxSectionBytes ∧ r = (desc.compressedSize, pos + 4) := by
  unfold readSectionLen
  constructor
  · intro h
    obtain ⟨buf, hb, h⟩ := bind_ok h
    obtain ⟨hl, rfl⟩ := readExact_ok.mp hb
    obtain ⟨hd, h⟩ := guard_ok h
    obtain ⟨hm, h⟩ := guard_ok h
    cases h
    rw [not_not] at hd
    refine ⟨⟨hl, hd⟩, ?_, ?_⟩
    · exact hd ▸ Nat.not_lt.mp hm
    · rw [hd]
  · rintro ⟨hf, hs, rfl⟩
    rw [readExact_ok.mpr ⟨hf.there, rfl⟩]
    show (if _ then _ else if _ then _ else _ : Except IoError (Nat × Nat)) = _
    rw [if_neg (not_not.mpr hf.declared), if_neg (by rw [hf.declared]; omega), hf.declared]

theorem readSectionLogical_ok :
    readSectionLogical c bytes pos desc = .ok r ↔ Framed bytes pos desc ∧
      Whole c bytes (entryAt pos desc) ∧ Logical c bytes (entryAt pos desc) r.1 ∧
      r.2 = pos + 4 + desc.compressedSize := by
  unfold readSectionLogical
  constructor
  · intro h
    obtain ⟨len, hl, h⟩ := bind_ok h
    obtain ⟨hf, hs, rfl⟩ := readSectionLen_ok.mp hl
    obtain ⟨w, hw, h⟩ := bind_ok h
    obtain ⟨hfit, rfl⟩ := readExact_ok.mp hw
    obtain ⟨hh, h⟩ := guard_ok h
    obtain ⟨d, hd, h⟩ := bind_ok h
    cases h
    exact ⟨hf, ⟨hfit, hs, not_not.mp hh⟩, hd, rfl⟩
  · rintro ⟨hf, hw, hd, hp⟩
    rw [readSectionLen_ok.mpr ⟨hf, hw.small, rfl⟩]
    have hfit : (slice bytes (pos + 4) desc.compressedSize).length = desc.compressedSize := hw.fits
    show (readExact bytes (pos + 4) desc.compressedSize >>= fun w => _) = _
    rw [readExact_ok.mpr ⟨hfit, rfl⟩]
    have hh : ¬ c.blake3 (slice bytes (pos + 4) desc.compressedSize) ≠ desc.blake3 :=
      not_not.mpr hw.hash
    show (if c.blake3 (slice bytes (pos + 4) desc.compressedSize) ≠ desc.blake3 then _
      else (_ : Except IoError (Bytes × Nat))) = _
    rw [if_neg hh]
    show (decodeOnWire c (onWire bytes (entryAt pos desc)) _ _ _ >>= fun logical => _) = _
    rw [show decodeOnWire c (onWire bytes (entryAt pos desc)) desc.compression desc.id
      desc.uncompressedSize = .ok r.1 from hd]
    show Except.ok (r.1, pos + 4 + desc.compressedSize) = _
    rw [← hp]

theorem skipChunks_ok : ∀ {fuel remaining pos : Nat} {hashed : Bytes} {r : Bytes × Nat},
    remaining ≤ fuel → (skipChunks bytes fuel remaining pos hashed = .ok r ↔
      (slice bytes pos remaining).length = remaining ∧
        r = (hashed ++ slice bytes pos remaining, pos + remaining))
  | 0, remaining, pos, hashed, r, hf => by
    obtain rfl : remaining = 0 := by omega
    unfold skipChunks
    simp [slice, eq_comm]
  | fuel + 1, remaining, pos, hashed, r, hf => by
    unfold skipChunks
    by_cases h0 : remaining = 0
    · subst h0
      simp [slice, eq_comm]
    · rw [if_neg h0]
      have hpos : 0 < min remaining skipScratch := by
        have : 0 < skipScratch := by decide
        omega
      have hsum : min remaining skipScratch + (remaining - min remaining skipScratch) = remaining := by
        omega
      have happ := slice_append bytes pos (min remaining skipScratch)
        (remaining - min remaining skipScratch)
      rw [hsum] at happ
      have hlen := congrArg List.length happ
      rw [List.length_append] at hlen
      have hle : ∀ p n, (slice bytes p n).length ≤ n := fun p n => List.length_take_le _ _
      constructor
      · intro h
        obtain ⟨chunk, hc, h⟩ := bind_ok h
        obtain ⟨hl, rfl⟩ := readExact_ok.mp hc
        obtain ⟨hl', rfl⟩ := (skipChunks_ok (by omega)).mp h
        simp only at hl'
        refine ⟨by omega, ?_⟩
        rw [List.append_assoc, happ, Nat.add_assoc, hsum]
      · rintro ⟨hl, rfl⟩
        have h1 := hle pos (min remaining skipScratch)
        have h2 := hle (pos + min remaining skipScratch) (remaining - min remaining skipScratch)
        show (readExact bytes pos (min remaining skipScratch) >>= fun chunk => _) = _
        rw [readExact_ok.mpr ⟨by omega, rfl⟩]
        refine (skipChunks_ok (by omega)).mpr ⟨show (slice bytes (pos + _) _).length = _ by omega, ?_⟩
        rw [List.append_assoc, happ, Nat.add_assoc, hsum]

theorem skipSectionVerified_ok {p : Nat} :
    skipSectionVerified c bytes pos desc = .ok p ↔ Framed bytes pos desc ∧
      Whole c bytes (entryAt pos desc) ∧ p = pos + 4 + desc.compressedSize := by
  unfold skipSectionVerified
  constructor
  · intro h
    obtain ⟨len, hl, h⟩ := bind_ok h
    obtain ⟨hf, hs, rfl⟩ := readSectionLen_ok.mp hl
    obtain ⟨hashed, hw, h⟩ := bind_ok h
    obtain ⟨hfit, rfl⟩ := (skipChunks_ok le_rfl).mp hw
    obtain ⟨hh, h⟩ := guard_ok h
    cases h
    exact ⟨hf, ⟨hfit, hs, not_not.mp hh⟩, rfl⟩
  · rintro ⟨hf, hw, rfl⟩
    rw [readSectionLen_ok.mpr ⟨hf, hw.small, rfl⟩]
    have hfit : (slice bytes (pos + 4) desc.compressedSize).length = desc.compressedSize := hw.fits
    show (skipChunks bytes desc.compressedSize desc.compressedSize (pos + 4) [] >>= fun w => _) = _
    rw [(skipChunks_ok le_rfl).mpr ⟨hfit, rfl⟩]
    have hh : ¬ c.blake3 (slice bytes (pos + 4) desc.compressedSize) ≠ desc.blake3 :=
      not_not.mpr hw.hash
    show (if c.blake3 (slice bytes (pos + 4) desc.compressedSize) ≠ desc.blake3 then _
      else (_ : Except IoError Nat)) = _
    rw [if_neg hh]

/-! ## The index -/

theorem indexSections_cons {rest : List SectionDescriptor}
    {index : List SectionIndexEntry} : indexSections bytes pos (desc :: rest) = .ok index ↔
      Framed bytes pos desc ∧ desc.compressedSize ≤ u32Max ∧
        ∃ tail, indexSections bytes (pos + 4 + desc.compressedSize) rest = .ok tail ∧
          index = (entryAt pos desc).1 :: tail := by
  constructor
  · intro h
    unfold indexSections at h
    obtain ⟨buf, hb, h⟩ := bind_ok h
    obtain ⟨hl, rfl⟩ := readExact_ok.mp hb
    obtain ⟨hm, h⟩ := guard_ok h
    obtain ⟨hd, h⟩ := guard_ok h
    obtain ⟨tail, ht, h⟩ := bind_ok h
    cases h
    rw [not_not] at hd
    refine ⟨⟨hl, hd⟩, Nat.not_lt.mp hm, tail, ?_, ?_⟩
    · rw [← hd]
      exact ht
    · unfold entryAt
      rw [← hd]
  · rintro ⟨hf, hm, tail, ht, rfl⟩
    unfold indexSections
    rw [readExact_ok.mpr ⟨hf.there, rfl⟩]
    show (if _ then _ else if _ then _ else _ : Except IoError (List SectionIndexEntry)) = _
    rw [if_neg (Nat.not_lt.mpr hm), if_neg (not_not.mpr hf.declared)]
    show (indexSections bytes (pos + 4 + leU32 (slice bytes pos 4)) rest >>= fun index => _) = _
    rw [hf.declared, ht]
    rfl

theorem indexSections_mem : ∀ {descs : List SectionDescriptor} {pos : Nat}
    {index : List SectionIndexEntry}, indexSections bytes pos descs = .ok index →
      index.map SectionIndexEntry.id = descs.map SectionDescriptor.id ∧
      ∀ e ∈ index.zip descs, e.1.id = e.2.id ∧ e.1.onWireLen = e.2.compressedSize ∧
        e.1.fileOffset ≤ bytes.length
  | [], pos, index, h => by
    cases h
    exact ⟨rfl, fun e he => absurd he List.not_mem_nil⟩
  | desc :: rest, pos, index, h => by
    obtain ⟨hf, -, tail, ht, rfl⟩ := indexSections_cons.mp h
    obtain ⟨hids, hmem⟩ := indexSections_mem ht
    refine ⟨by rw [List.map_cons, List.map_cons, hids]; rfl, fun e he => ?_⟩
    rcases List.mem_cons.mp he with rfl | he
    · refine ⟨rfl, rfl, ?_⟩
      have := hf.there
      unfold slice at this
      rw [List.length_take, List.length_drop] at this
      show pos + 4 ≤ bytes.length
      omega
    · exact hmem e he

/-! ## The streaming readers -/

theorem readSections_spec : ∀ {descs : List SectionDescriptor} {pos : Nat}
    {secs : List SectionBytes}, readSections c bytes want pos descs = .ok secs →
      ∃ index, indexSections bytes pos descs = .ok index ∧
        (∀ e ∈ index.zip descs, Whole c bytes e) ∧
        (∀ e ∈ index.zip descs, want e.2.id = true → ∃ d, Logical c bytes e d ∧ ⟨e.2.id, d⟩ ∈ secs) ∧
        ∀ s ∈ secs, ∃ e ∈ index.zip descs, e.2.id = s.id ∧ Logical c bytes e s.data
  | [], pos, secs, h => by
    cases h
    exact ⟨[], rfl, by simp, by simp, by simp⟩
  | desc :: rest, pos, secs, h => by
    have hu32 : maxSectionBytes ≤ u32Max := by decide
    unfold readSections at h
    split_ifs at h with hw
    · obtain ⟨r, hr, h⟩ := bind_ok h
      obtain ⟨secs', hs, h⟩ := bind_ok h
      cases h
      obtain ⟨hf, hwh, hd, hp⟩ := readSectionLogical_ok.mp hr
      rw [hp] at hs
      obtain ⟨index, hi, hall, hgive, hback⟩ := readSections_spec hs
      refine ⟨_, indexSections_cons.mpr ⟨hf, hwh.small.trans hu32, index, hi, rfl⟩, ?_, ?_, ?_⟩
      · intro e he
        rcases List.mem_cons.mp he with rfl | he
        · exact hwh
        · exact hall e he
      · intro e he hwe
        rcases List.mem_cons.mp he with rfl | he
        · exact ⟨r.1, hd, List.mem_cons_self⟩
        · obtain ⟨d, hd, hm⟩ := hgive e he hwe
          exact ⟨d, hd, List.mem_cons_of_mem _ hm⟩
      · intro s hs
        rcases List.mem_cons.mp hs with rfl | hs
        · exact ⟨_, List.mem_cons_self, rfl, hd⟩
        · obtain ⟨e, he, h⟩ := hback s hs
          exact ⟨e, List.mem_cons_of_mem _ he, h⟩
    · obtain ⟨p, hr, hs⟩ := bind_ok h
      obtain ⟨hf, hwh, rfl⟩ := skipSectionVerified_ok.mp hr
      obtain ⟨index, hi, hall, hgive, hback⟩ := readSections_spec hs
      refine ⟨_, indexSections_cons.mpr ⟨hf, hwh.small.trans hu32, index, hi, rfl⟩, ?_, ?_, ?_⟩
      · intro e he
        rcases List.mem_cons.mp he with rfl | he
        · exact hwh
        · exact hall e he
      · intro e he hwe
        rcases List.mem_cons.mp he with rfl | he
        · exact absurd hwe hw
        · exact hgive e he hwe
      · intro s hs
        obtain ⟨e, he, h⟩ := hback s hs
        exact ⟨e, List.mem_cons_of_mem _ he, h⟩

theorem readSections_ok : ∀ {descs : List SectionDescriptor} {pos : Nat}
    {index : List SectionIndexEntry}, indexSections bytes pos descs = .ok index →
      (∀ e ∈ index.zip descs, Whole c bytes e) →
      (∀ e ∈ index.zip descs, want e.2.id = true → ∃ d, Logical c bytes e d) →
      ∃ secs, readSections c bytes want pos descs = .ok secs
  | [], pos, index, _, _, _ => ⟨[], rfl⟩
  | desc :: rest, pos, index, h, hall, hlog => by
    obtain ⟨hf, -, tail, ht, rfl⟩ := indexSections_cons.mp h
    have hwh : Whole c bytes (entryAt pos desc) := hall _ List.mem_cons_self
    obtain ⟨secs, hs⟩ := readSections_ok ht (fun e he => hall e (List.mem_cons_of_mem _ he))
      fun e he => hlog e (List.mem_cons_of_mem _ he)
    unfold readSections
    by_cases hw : want desc.id = true
    · obtain ⟨d, hd⟩ := hlog (entryAt pos desc) List.mem_cons_self hw
      rw [if_pos hw, readSectionLogical_ok.mpr
        (show _ ∧ _ ∧ Logical c bytes _ (d, pos + 4 + desc.compressedSize).1 ∧ _ from
          ⟨hf, hwh, hd, rfl⟩)]
      refine ⟨⟨desc.id, d⟩ :: secs, ?_⟩
      show (readSections c bytes want (pos + 4 + desc.compressedSize) rest >>= fun s => _) = _
      rw [hs]
      rfl
    · rw [if_neg hw, skipSectionVerified_ok.mpr ⟨hf, hwh, rfl⟩]
      exact ⟨secs, hs⟩

/-! ## The header and the lookup -/

theorem header_ids {header : ArtifactManifest × Nat} (h : readHeaderAndManifest c bytes = .ok header) :
    (header.1.sections.map SectionDescriptor.id).Nodup := by
  unfold readHeaderAndManifest at h
  obtain ⟨_, -, h⟩ := bind_ok h
  obtain ⟨-, h⟩ := guard_ok h
  obtain ⟨_, -, h⟩ := bind_ok h
  obtain ⟨-, h⟩ := guard_ok h
  obtain ⟨_, -, h⟩ := bind_ok h
  obtain ⟨-, h⟩ := guard_ok h
  obtain ⟨_, -, h⟩ := bind_ok h
  obtain ⟨manifest, -, h⟩ := bind_ok h
  obtain ⟨_, hc, h⟩ := bind_ok h
  cases h
  unfold checkManifest at hc
  obtain ⟨_, -, hc⟩ := bind_ok hc
  obtain ⟨-, hc⟩ := guard_ok hc
  obtain ⟨hd, -⟩ := guard_ok hc
  exact not_not.mp hd

theorem indexSeekable_ok {r : ArtifactManifest × List SectionIndexEntry} :
    indexSeekable c bytes = .ok r ↔ ∃ pos, readHeaderAndManifest c bytes = .ok (r.1, pos) ∧
      indexSections bytes pos r.1.sections = .ok r.2 := by
  unfold indexSeekable
  constructor
  · intro h
    obtain ⟨header, hh, h⟩ := bind_ok h
    obtain ⟨index, hi, h⟩ := bind_ok h
    cases h
    exact ⟨header.2, hh, hi⟩
  · rintro ⟨pos, hh, hi⟩
    rw [hh]
    show (indexSections bytes pos r.1.sections >>= fun index => _) = _
    rw [hi]
    rfl

section Lookup

variable {index : List SectionIndexEntry} {descs : List SectionDescriptor}

variable {e : Section}

theorem zip_unique (hids : index.map SectionIndexEntry.id = descs.map SectionDescriptor.id)
    (hnodup : (descs.map SectionDescriptor.id).Nodup) {f : Section} (he : e ∈ index.zip descs)
    (hf : f ∈ index.zip descs) (h : e.2.id = f.2.id) : e = f := by
  have hlen : descs.length ≤ index.length := by
    have := congrArg List.length hids
    rw [List.length_map, List.length_map] at this
    omega
  have hz : ((index.zip descs).map fun e => e.2.id).Nodup := by
    have hmap : (index.zip descs).map Prod.snd = descs := List.map_snd_zip hlen
    have heq : ((index.zip descs).map fun e => e.2.id) = descs.map SectionDescriptor.id := by
      rw [← congrArg (List.map SectionDescriptor.id) hmap, List.map_map]
      rfl
    rw [heq]
    exact hnodup
  exact List.inj_on_of_nodup_map hz he hf h

theorem lookupSection_ok {id : String} {found : Section × Nat}
    (h : lookupSection index descs id = .ok found) :
    (index.zip descs)[found.2]? = some found.1 ∧ found.1.1.id = id := by
  unfold lookupSection at h
  split at h
  · rename_i e he
    cases h
    obtain ⟨hp, hm⟩ := And.intro (List.find?_some he) (List.mem_of_find?_eq_some he)
    exact ⟨List.mem_zipIdx_iff_getElem?.mp hm, of_decide_eq_true hp⟩
  · cases h

theorem lookupSection_found (he : e ∈ index.zip descs) :
    ∃ found, lookupSection index descs e.1.id = .ok found := by
  unfold lookupSection
  split
  · exact ⟨_, rfl⟩
  · rename_i hnone
    obtain ⟨i, hi⟩ := List.getElem?_of_mem he
    have := List.find?_eq_none.mp hnone (e, i) (List.mem_zipIdx_iff_getElem?.mpr hi)
    exact absurd (decide_eq_true rfl) this

end Lookup

end Antecedent.Io
