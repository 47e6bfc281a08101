import ShellProbe.Proofs.Loading
import ShellProbe.Proofs.Rereading
import ShellProbe.Proofs.Tallies

/-!
# Saving the statistics

Statistics that came of recording runs have all fields, their keys are texts that a file can hold,
and their numbers grow by one with an update at most (`Sound.applyAll`). Unless a number has become
too large to be written, they are saved, and what is loaded from the file is the same but for the
order of its keys (`load_save`).
-/

namespace ShellProbe

/-! ## Order -/

namespace Members

variable {key : Text} {v : Json} {a b members : Members}

theorem get?_eq_some_iff (hkeys : (members.map Prod.fst).Nodup) :
    get? key members = some v ↔ (key, v) ∈ members := by
  induction members with
  | nil => simp [get?]
  | cons m members ih =>
    obtain ⟨k, w⟩ := m
    rw [List.map_cons, List.nodup_cons] at hkeys
    rw [get?, List.mem_cons, Prod.mk.injEq]
    by_cases hk : k = key
    · subst hk
      have hout : (k, v) ∉ members := fun hmem => hkeys.1 (List.mem_map.2 ⟨_, hmem, rfl⟩)
      simp [hout, eq_comm]
    · simp [hk, Ne.symm hk, ih hkeys.2]

/-- The order of the members of an object does not matter to what is under a key. -/
theorem get?_perm (h : a.Perm b) (hkeys : (a.map Prod.fst).Nodup) (key : Text) :
    get? key b = get? key a := by
  have hkeys' : (b.map Prod.fst).Nodup := ((h.map _).nodup_iff).1 hkeys
  refine Option.ext fun v => ?_
  rw [get?_eq_some_iff hkeys, get?_eq_some_iff hkeys', h.mem_iff]

theorem get?_map (f : Json → Json) (key : Text) (members : Members) :
    get? key (members.map fun m => (m.1, f m.2)) = (get? key members).map f := by
  induction members with
  | nil => rfl
  | cons m members ih =>
    rw [List.map_cons, get?, get?]
    split_ifs
    · rfl
    · exact ih

theorem mem_put {m : Text × Json} {value : Json} : ∀ {members : Members},
    m ∈ put key value members → m = (key, value) ∨ m ∈ members
  | [], h => by simpa [put] using h
  | (k, w) :: members, h => by
    rw [put] at h
    split_ifs at h with hk
    · rcases List.mem_cons.1 h with rfl | h
      · exact .inl (by rw [hk])
      · exact .inr (List.mem_cons_of_mem _ h)
    · rcases List.mem_cons.1 h with rfl | h
      · exact .inr List.mem_cons_self
      · exact (mem_put h).imp_right (List.mem_cons_of_mem _)

theorem nodup_put {value : Json} : ∀ {members : Members}, (members.map Prod.fst).Nodup →
    ((put key value members).map Prod.fst).Nodup
  | [], _ => by simp [put]
  | (k, w) :: members, h => by
    rw [List.map_cons, List.nodup_cons] at h
    rw [put]
    split_ifs with hk
    · simpa using h
    · rw [List.map_cons, List.nodup_cons]
      refine ⟨fun hmem => ?_, nodup_put h.2⟩
      obtain ⟨m, hm, hfst⟩ := List.mem_map.1 hmem
      rcases mem_put hm with rfl | hm
      · exact hk hfst.symm
      · exact h.1 (hfst ▸ List.mem_map_of_mem hm)

end Members

namespace Json

variable {good : Int → Prop} {room : Nat} {members : Members}

/-- The members of an object in dictionary order of their keys. -/
def inOrder (members : Members) : Members :=
  (sortedMembers members).mergeSort fun a b => !b.1.lt a.1

theorem sorted_object (members : Members) :
    sorted (.object members) = .object (inOrder members) := by
  rw [sorted, inOrder]

theorem sorted_int (n : Int) : sorted (.int n) = .int n := by simp [sorted]

theorem sortedMembers_eq (members : Members) :
    sortedMembers members = members.map fun m => (m.1, sorted m.2) := by
  induction members with
  | nil => rw [sortedMembers, List.map_nil]
  | cons m members ih => rw [sortedMembers, ih, List.map_cons]

theorem sortedItems_eq (items : List Json) : sortedItems items = items.map sorted := by
  induction items with
  | nil => rw [sortedItems, List.map_nil]
  | cons v items ih => rw [sortedItems, ih, List.map_cons]

theorem perm_inOrder (members : Members) :
    (inOrder members).Perm (members.map fun m => (m.1, sorted m.2)) :=
  sortedMembers_eq members ▸ List.mergeSort_perm _ _

theorem nodup_inOrder (hkeys : (members.map Prod.fst).Nodup) :
    ((inOrder members).map Prod.fst).Nodup := by
  rw [((perm_inOrder members).map _).nodup_iff, List.map_map]
  exact hkeys

theorem get?_inOrder (hkeys : (members.map Prod.fst).Nodup) (key : Text) :
    Members.get? key (inOrder members) = (Members.get? key members).map sorted := by
  rw [← Members.get?_map, Members.get?_perm (perm_inOrder members) (nodup_inOrder hkeys)]

theorem Storable.sorted {v : Json} (h : Storable good room v) : Storable good room v.sorted := by
  induction h with
  | null => exact .null
  | bool b => exact .bool b
  | int hn => exact .int hn
  | string ht => exact .string ht
  | array _ ih =>
    rw [Json.sorted, sortedItems_eq]
    refine .array fun v hv => ?_
    obtain ⟨w, hw, rfl⟩ := List.mem_map.1 hv
    exact ih w hw
  | @object room members hkeys hplain _ ih =>
    rw [sorted_object]
    have hmem : ∀ m ∈ inOrder members, ∃ n ∈ members, m = (n.1, Json.sorted n.2) := fun m hm => by
      obtain ⟨n, hn, rfl⟩ := List.mem_map.1 ((perm_inOrder _).mem_iff.1 hm)
      exact ⟨n, hn, rfl⟩
    refine .object (nodup_inOrder hkeys) (fun m hm => ?_) fun m hm => ?_ <;>
      obtain ⟨n, hn, rfl⟩ := hmem m hm
    · exact hplain n hn
    · exact ih n hn

theorem Storable.keys (h : Storable good room (.object members)) :
    (members.map Prod.fst).Nodup := by
  cases h
  assumption

theorem Storable.put {key : Text} {value : Json} (h : Storable good (room + 1) (.object members))
    (hkey : key.IsPlain) (hvalue : Storable good room value) :
    Storable good (room + 1) (.object (Members.put key value members)) := by
  cases h with
  | object hkeys hplain hvalues =>
    refine .object (Members.nodup_put hkeys) (fun m hm => ?_) fun m hm => ?_ <;>
      rcases Members.mem_put hm with rfl | hm
    · exact hkey
    · exact hplain m hm
    · exact hvalue
    · exact hvalues m hm

theorem Storable.get? {key : Text} {value : Json} (h : Storable good (room + 1) (.object members))
    (hget : Members.get? key members = some value) : Storable good room value := by
  cases h with
  | object hkeys _ hvalues => exact hvalues _ ((Members.get?_eq_some_iff hkeys).1 hget)

theorem Storable.mono {good' : Int → Prop} {v : Json} (h : Storable good room v)
    (hgood : ∀ n, good n → good' n) : Storable good' room v :=
  h.of_numbers fun n hn => hgood n (h.good_of_mem n hn)

end Json

/-! ## Texts that can be kept -/

namespace Text

theorem isPlain_of_scalars {t : Text} (h : ∀ c ∈ t, c.scalar?.isSome) : t.IsPlain := by
  rintro (c | u) hc ⟨hlow, hhigh⟩
  · have hvalid : c.toNat.isValidChar := c.valid
    rw [CodePoint.val_scalar] at hlow hhigh
    unfold Nat.isValidChar at hvalid
    omega
  · simpa [CodePoint.scalar?] using h _ hc

theorem isPlain_ofString (s : String) : (ofString s).IsPlain := isPlain_of_scalars fun c hc => by
  obtain ⟨d, -, rfl⟩ := List.mem_map.1 hc
  rfl

theorem isPlain_append_iff {s t : Text} : (s ++ t).IsPlain ↔ s.IsPlain ∧ t.IsPlain := by
  simp [IsPlain, or_imp, forall_and]

end Text

theorem Numeral.isPlain_padded (width n : Nat) : (padded width n).IsPlain := by
  refine Text.isPlain_append_iff.2 ⟨fun c hc => ?_, Text.isPlain_of_scalars fun c hc => ?_⟩
  · rw [List.eq_of_mem_replicate hc]
    decide
  · obtain ⟨d, -, rfl⟩ := List.mem_map.1 hc
    rfl

theorem Moment.isPlain_text (m : Moment) : m.text.IsPlain := by
  have hfraction : Text.IsPlain (if m.microsecond = 0 then [] else
      .scalar '.' :: Numeral.padded 6 m.microsecond) := by
    split_ifs
    · exact Text.isPlain_ofString ""
    · exact Text.isPlain_append_iff.2 ⟨Text.isPlain_ofString ".", Numeral.isPlain_padded _ _⟩
  simp only [text, Text.isPlain_append_iff, Text.isPlain_ofString, Numeral.isPlain_padded,
    hfraction, and_self]

namespace Disk

variable {d d' : Disk} {path : Text} {place : Location}

theorem locateMade_of_create (h : d.create path = .ok (place, d')) :
    ∃ r, d.locateMade true path = .ok r ∧ r.place = place := by
  unfold create at h
  split_ifs at h
  rcases hlocate : d.locateMade true path with e | ⟨q, e⟩ | q <;> rw [hlocate] at h
  · cases h
  · refine ⟨_, rfl, ?_⟩
    cases e <;> cases h <;> rfl
  · cases h
    exact ⟨_, rfl, rfl⟩

/-- What was written can be read, and written again. -/
theorem Writable.write (h : d.Writable path) (bytes : Bytes) : ∃ d' x, d.write path bytes = .ok d' ∧
    d'.entry? path = some (.file bytes x) ∧ d'.Writable path := by
  have hnull := h.hasNull
  obtain ⟨place, opened, hcreate, hsink⟩ := h
  obtain ⟨r, hlocate, rfl⟩ := locateMade_of_create hcreate
  have hcreated := created_of_create hcreate
  obtain ⟨x, hx⟩ := hcreated.after.resolve_right fun hand => hsink hand.1
  have hfind := find?_writeAt hx bytes
  have hthere : (opened.writeAt r.place 0 bytes).locateMade true path
      = .ok (.present r.place (.file bytes x)) := by
    have hopened := hcreated.waysIn.locate_present hlocate hx fun hlink => by
      simp [Entry.IsLink] at hlink
    exact (sameBut_writeAt opened r.place 0 bytes).waysIn.locate_present (r := .present r.place _)
      hopened hfind fun hlink => by simp [Entry.IsLink] at hlink
  exact ⟨_, x, by rw [Disk.write, hcreate]; rfl,
    entry?_eq_some_iff.2 ⟨hnull, _, locate_of_made hthere⟩, writable_of_file hnull hthere⟩

end Disk

namespace Statistics

open Members Json

variable {k : Nat} {u : Update} {us : List Update} {stats stats' : Members} {start now : Moment}

/-- The texts of an update can be kept. -/
def Update.IsPlain : Update → Prop
  | count field => field.IsPlain
  | tally table key => table.IsPlain ∧ key.IsPlain
  | stamp _ => True

/-- The texts of a run can be kept. -/
def Run.IsPlain (run : Run) : Prop :=
  run.mode.IsPlain ∧ ∀ r ∈ run.report.records, r.target.IsPlain

instance : DecidablePred Run.IsPlain := fun run =>
  inferInstanceAs (Decidable (run.mode.IsPlain ∧ ∀ r ∈ run.report.records, r.target.IsPlain))

theorem isPlain_field {field : Text} (h : field ∈ fields) : field.IsPlain := by
  simp only [fields, List.mem_cons, List.not_mem_nil, or_false] at h
  rcases h with rfl | rfl | rfl | rfl | rfl | rfl <;> exact Text.isPlain_ofString _

/-- An update puts something in the place of a field. -/
theorem apply_cases (hwell : WellFormed stats) (hu : u.IsKnown) (hplain : u.IsPlain)
    (happly : u.apply stats = .ok stats') : ∃ field value, stats' = put field value stats ∧
      field.IsPlain ∧ ∀ k, Storable (fun n => n.natAbs ≤ k) 2 (.object stats) →
        Storable (fun n => n.natAbs ≤ k + 1) 1 value := by
  cases u with
  | count field =>
    obtain ⟨n, hn⟩ := hwell.counter field hu
    rw [Update.apply, hn] at happly
    refine ⟨field, .int (n + 1), (Except.ok.inj happly).symm, hplain, fun k h => .int ?_⟩
    cases h.get? hn with
    | int hle => omega
  | tally table key =>
    obtain ⟨entries, hentries, hints⟩ := hwell.table table hu
    rw [Update.apply, hentries] at happly
    change (increment false ((get? key entries).getD (.int 0))).bind _ = _ at happly
    obtain ⟨n, hincrement, hbound⟩ : ∃ n : Int,
        increment false ((get? key entries).getD (.int 0)) = .ok (.int n) ∧
        ∀ k, Storable (fun n => n.natAbs ≤ k) 2 (.object stats) → n.natAbs ≤ k + 1 := by
      rcases hvalue : get? key entries with - | value
      · exact ⟨1, rfl, fun k _ => Nat.le_add_left 1 k⟩
      · obtain ⟨n, rfl⟩ := hints key value hvalue
        refine ⟨n + 1, rfl, fun k h => ?_⟩
        cases (h.get? hentries).get? hvalue with
        | int hle => omega
    rw [hincrement] at happly
    refine ⟨table, _, (Except.ok.inj happly).symm, hplain.1, fun k h => ?_⟩
    exact ((h.get? hentries).mono fun n hn => Nat.le_succ_of_le hn).put hplain.2 (.int (hbound k h))
  | stamp moment =>
    exact ⟨lastUpdateTime, .string moment.text, (Except.ok.inj happly).symm,
      isPlain_field (by decide), fun k _ => .string moment.isPlain_text⟩

theorem WellFormed.isTable {table : Text} {entries : Members} (h : WellFormed stats)
    (htable : table ∈ tables) (hentries : get? table stats = some (.object entries)) :
    IsTable entries := by
  obtain ⟨entries', hentries', hints⟩ := h.table table htable
  obtain rfl := Json.object.inj (Option.some.inj (hentries.symm.trans hentries'))
  exact hints

/-- Statistics that can be kept in a file, unless a number in them is too large for that. -/
structure Sound (k : Nat) (stats : Members) : Prop where
  wellFormed : WellFormed stats
  storable : Storable (fun n => n.natAbs ≤ k) 2 (.object stats)
  complete : ∀ field ∈ fields, (get? field stats).isSome

theorem isSome_get?_put {field key : Text} {value : Json} (h : (get? key stats).isSome) :
    (get? key (put field value stats)).isSome := by
  by_cases hkey : key = field
  · rw [hkey, get?_put_self]
    rfl
  · rwa [get?_put_of_ne _ hkey]

theorem Sound.apply (h : Sound k stats) (hu : u.IsKnown) (hplain : u.IsPlain)
    (happly : u.apply stats = .ok stats') : Sound (k + 1) stats' := by
  obtain ⟨stats'', happly', hraised⟩ := apply_raised h.wellFormed hu
  obtain rfl := Except.ok.inj (happly.symm.trans happly')
  obtain ⟨field, value, rfl, hfield, hvalue⟩ := apply_cases h.wellFormed hu hplain happly
  refine ⟨hraised.wellFormed h.wellFormed, ?_,
    fun key hkey => isSome_get?_put (h.complete key hkey)⟩
  exact (h.storable.mono fun n hn => Nat.le_succ_of_le hn).put hfield (hvalue k h.storable)

theorem Sound.applyAll : ∀ {us : List Update} {k : Nat} {stats : Members}, Sound k stats →
    (∀ u ∈ us, u.IsKnown) → (∀ u ∈ us, u.IsPlain) → applyAll stats us = (stats', none) →
      Sound (k + us.length) stats'
  | [], k, stats, h, _, _, hall => by
    obtain ⟨rfl, -⟩ := Prod.mk.inj hall
    exact h
  | u :: us, k, stats, h, hknown, hplain, hall => by
    rw [Statistics.applyAll] at hall
    rcases happly : u.apply stats with fault | stats'' <;> rw [happly] at hall
    · simp at hall
    · have hstep := h.apply (hknown u List.mem_cons_self) (hplain u List.mem_cons_self) happly
      have hrest := Sound.applyAll hstep (fun v hv => hknown v (List.mem_cons_of_mem _ hv))
        (fun v hv => hplain v (List.mem_cons_of_mem _ hv)) hall
      rwa [Nat.add_right_comm, Nat.add_assoc] at hrest

theorem sound_initial (start : Moment) : Sound 0 (initial start) where
  wellFormed := by
    refine ⟨fun field hfield => ?_, fun table htable => ?_⟩
    · rcases List.mem_pair.1 hfield with rfl | rfl <;> exact ⟨_, rfl⟩
    · rcases List.mem_pair.1 htable with rfl | rfl <;>
        exact ⟨[], rfl, fun key value hvalue => by cases hvalue⟩
  storable := by
    have hempty : Storable (fun n => n.natAbs ≤ 0) 1 (.object []) :=
      .object List.nodup_nil (by simp) (by simp)
    refine .object (by change fields.Nodup; decide) (fun m hm => ?_) fun m hm => ?_
    · exact isPlain_field (List.mem_map_of_mem (f := Prod.fst) hm)
    · simp only [initial, List.mem_cons, List.not_mem_nil, or_false] at hm
      rcases hm with rfl | rfl | rfl | rfl | rfl | rfl
      · exact .string start.isPlain_text
      · exact .null
      · exact .int le_rfl
      · exact .int le_rfl
      · exact hempty
      · exact hempty
  complete field hfield := isSome_get?_initial start hfield

/-! ## The file -/

theorem Sound.inOrder (h : Sound k stats) : Sound k (inOrder stats) where
  wellFormed := by
    refine ⟨fun field hfield => ?_, fun table htable => ?_⟩
    · obtain ⟨n, hn⟩ := h.wellFormed.counter field hfield
      exact ⟨n, by rw [get?_inOrder h.storable.keys, hn, Option.map_some, sorted_int]⟩
    · obtain ⟨entries, hentries, hints⟩ := h.wellFormed.table table htable
      refine ⟨Json.inOrder entries, ?_, fun key value hvalue => ?_⟩
      · rw [get?_inOrder h.storable.keys, hentries, Option.map_some, sorted_object]
      · rw [get?_inOrder (h.storable.get? hentries).keys] at hvalue
        obtain ⟨v, hv, rfl⟩ := Option.map_eq_some_iff.1 hvalue
        obtain ⟨n, rfl⟩ := hints key v hv
        exact ⟨n, sorted_int n⟩
  storable := sorted_object stats ▸ h.storable.sorted
  complete field hfield := by
    rw [get?_inOrder h.storable.keys, Option.isSome_map]
    exact h.complete field hfield

/-- Where nothing is missing nothing is filled in. -/
theorem Sound.complete_eq (h : Sound k stats) (now : Moment) :
    Statistics.complete now stats = stats := by
  have hfold : ∀ pairs : Members, (∀ p ∈ pairs, p.1 ∈ fields) →
      pairs.foldl (fun stats p => putNew p.1 p.2 stats) stats = stats := by
    intro pairs hpairs
    induction pairs with
    | nil => rfl
    | cons p pairs ih =>
      have hthere : putNew p.1 p.2 stats = stats :=
        if_pos (h.complete p.1 (hpairs p List.mem_cons_self))
      change pairs.foldl _ (putNew p.1 p.2 stats) = stats
      rw [hthere]
      exact ih fun q hq => hpairs q (List.mem_cons_of_mem _ hq)
  refine hfold _ fun p hp => ?_
  rcases List.mem_append.1 hp with hp | hp
  · exact List.mem_map_of_mem (f := Prod.fst) (List.mem_of_mem_tail hp)
  · rw [List.mem_singleton.1 hp]
    exact List.mem_cons_self

theorem ofBytes_fileText (h : Sound k stats)
    (hwritable : (Json.object stats).sorted.unwritable? = none) (now : Moment) :
    ofBytes now (Utf8.encode (fileText (.object stats))) = .ok ⟨Json.inOrder stats, none⟩ := by
  have hreadable : Readable 2 (Json.object stats).sorted :=
    h.storable.sorted.of_numbers ((unwritable?_eq_none_iff _).1 hwritable)
  rw [sorted_object] at hreadable
  have hread := ofBytes_write hreadable (by decide) (.indented 0) now
  rwa [h.inOrder.complete_eq, ← sorted_object, ← Json.pretty, ← prettyWritable_eq hwritable]
    at hread

/-- Statistics are saved and loaded again, unless one of their numbers is too large to be
written. -/
theorem load_save {disk : Disk} {path : Path} (hwritable : disk.Writable path.text)
    (h : Sound k stats) :
    (∃ disk', save disk path (.object stats) = { disk := disk' } ∧ disk'.Writable path.text ∧
      ∀ now, load now disk' path = .ok ⟨Json.inOrder stats, none⟩) ∨
    ∃ disk' n, save disk path (.object stats)
        = { disk := disk', fault := some (.unwritable ⟨n⟩) } ∧
      Numeral.isWritable n = false ∧ n.natAbs ≤ k := by
  obtain ⟨disk', x, hwrite, hentry, hwritable'⟩ :=
    hwritable.write (Utf8.encode (fileText (.object stats)))
  rcases hunwritable : (Json.object stats).sorted.unwritable? with - | ⟨⟨n⟩⟩
  · refine .inl ⟨disk', ?_, hwritable', fun now => ?_⟩
    · simp only [save, saveUntil, Text.upTo, hwrite, hunwritable, Option.map_none]
    have hfile : disk'.isFile path.text = .ok true := by rw [Disk.isFile_eq, hentry]
    simp only [load, hfile, Disk.read_of_entry? hentry, ofBytes_fileText h hunwritable now]
  · obtain ⟨hmem, hn⟩ := mem_of_unwritable? hunwritable
    have hbound : n.natAbs ≤ k := h.storable.sorted.good_of_mem n hmem
    refine .inr ⟨disk', n, ?_, hn, hbound⟩
    simp only [save, saveUntil, Text.upTo, hwrite, hunwritable, Option.map_some]

end Statistics

end ShellProbe
