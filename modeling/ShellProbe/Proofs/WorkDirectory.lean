import ShellProbe.Explore.Run
import ShellProbe.Proofs.Files
import ShellProbe.Proofs.Lines

/-!
# The directory of a run

A run keeps its files in a directory that was not there before and is gone afterwards, so it leaves
the disk as it was (`sameBut_clearBelow`).
-/

namespace ShellProbe

/-- A name that stands for nothing but itself. -/
structure Path.IsPlain (name : Text) : Prop where
  isName : Path.isName name = true
  ne : name ≠ ".."
  slash : .scalar '/' ∉ name
  null : Disk.hasNull name = false

namespace Disk

variable {d : Disk} {made : Bool} {links : Nat} {place : Location} {pieces : List Text} {r : Found}

/-- Along plain names and through directories alone a walk leads straight down. -/
theorem Reaches.place_eq (h : d.Reaches made links place pieces r)
    (hnames : ∀ name ∈ pieces, Path.isName name = true ∧ name ≠ "..")
    (habove : ∀ front, front <+: pieces → front ≠ pieces →
      d.find? (place ++ front) = some .directory)
    (hlink : ∀ target, d.find? (place ++ pieces) ≠ some (.link target)) :
    r.place = place ++ pieces := by
  induction h with
  | stop => exact (List.append_nil _).symm
  | skip hdir hname => simpa [hname] using (hnames _ List.mem_cons_self).1
  | up => exact absurd rfl (hnames _ List.mem_cons_self).2
  | absent => rfl
  | @follow links place name rest target r hdir hstep hfind h ih =>
    by_cases hrest : rest = []
    · subst hrest
      exact absurd hfind (hlink target)
    · have hnext := habove [name] ⟨rest, rfl⟩ fun heq => hrest (List.cons.inj heq).2.symm
      rw [hfind] at hnext
      simp at hnext
  | @on links place name rest entry r hdir hstep hfind hnolink h ih =>
    rw [ih (fun n hn => hnames n (List.mem_cons_of_mem _ hn)) (fun front hfront hne => ?_)
      (fun target => ?_), List.append_assoc]
    · rfl
    · have hcons := habove (name :: front) (List.cons_prefix_cons.2 ⟨rfl, hfront⟩)
        fun heq => hne (List.cons.inj heq).2
      rwa [List.append_assoc]
    · have hcons := hlink target
      rwa [List.append_assoc]

/-- Through directories alone a walk leads down to where a file can be made. -/
theorem reaches_absent : ∀ {names : List Text} {place : Location}, names ≠ [] →
    (∀ name ∈ names, Path.isName name = true ∧ name ≠ ".." ∧ isLongName name = false) →
    (∀ front, front <+: names → front ≠ names → d.find? (place ++ front) = some .directory) →
    d.find? (place ++ names) = none → d.Reaches made links place names (.absent (place ++ names))
  | name :: rest, place, _, hnames, habove, hnone => by
    obtain ⟨hname, hdots, hshort⟩ := hnames name List.mem_cons_self
    have hdir : d.find? place = some .directory := by
      simpa using habove [] List.nil_prefix (List.cons_ne_nil _ _).symm
    have hslash : endsInSlash rest = false := by
      rcases rest with - | ⟨next, rest⟩
      · rfl
      · have hnext := (hnames next (by simp)).1
        rw [Path.isName, Bool.and_eq_true, decide_eq_true_eq] at hnext
        simp [endsInSlash, hnext.1]
    have hstep : IsStep made name rest := ⟨hname, hdots, by simp [hslash], hshort⟩
    by_cases hrest : rest = []
    · subst hrest
      exact .absent hdir hstep hnone
    · have hdown := habove [name] ⟨rest, rfl⟩ fun heq => hrest (List.cons.inj heq).2.symm
      have hpath : place ++ name :: rest = place ++ [name] ++ rest := by simp
      rw [hpath] at hnone ⊢
      refine .on hdir hstep hdown (fun ⟨_, ht⟩ => by simp at ht)
        (reaches_absent hrest (fun n hn => hnames n (List.mem_cons_of_mem _ hn))
          (fun front hfront hne => ?_) hnone)
      rw [List.append_assoc]
      exact habove (name :: front) (List.cons_prefix_cons.2 ⟨rfl, hfront⟩)
        fun heq => hne (List.cons.inj heq).2

theorem pieces_text {names : List Text} (h : ∀ name ∈ names, .scalar '/' ∉ name)
    (hne : names ≠ []) :
    Path.pieces (Path.mk "/" names).text = [] :: names := by
  have htext :
      (Path.mk "/" names).text = List.intercalate [CodePoint.scalar '/'] ([] :: names) := by
    obtain ⟨name, names, rfl⟩ := List.exists_cons_of_ne_nil hne
    simp [Path.text, Text.joinWith, Text.ofString]
  rw [htext, Path.pieces, Text.splitOn_eq]
  exact List.splitOn_intercalate _ (by simpa using h) (by simp)

theorem startsWith_text (names : List Text) : (Path.mk "/" names).text.startsWith ['/'] = true := by
  simp [Path.text, Text.startsWith, Text.ofString]

/-- A file can be made at the end of plain names along directories. -/
theorem create_absent {names : List Text} (hne : names ≠ [])
    (hnames : ∀ n ∈ names, Path.isName n = true ∧ n ≠ ".." ∧ isLongName n = false ∧
      .scalar '/' ∉ n)
    (habove : ∀ front, front <+: names → front ≠ names → d.find? front = some .directory)
    (hnone : d.find? names = none) (hlong : isLongPath (Path.mk "/" names).text = false)
    (hnull : hasNull (Path.mk "/" names).text = false) :
    d.create (Path.mk "/" names).text = .ok (names, d.put names (.file [] false)) := by
  have hreaches : d.Reaches true maxLinks [] names (.absent ([] ++ names)) :=
    reaches_absent hne (fun n hn => ⟨(hnames n hn).1, (hnames n hn).2.1, (hnames n hn).2.2.1⟩)
      habove hnone
  have hlocate : d.locateMade true (Path.mk "/" names).text = .ok (.absent names) := by
    refine locateMade_eq_ok_iff.2 ⟨fun hempty => ?_, hlong, ?_⟩
    · have hstart := startsWith_text names
      rw [hempty] at hstart
      exact absurd hstart (by decide)
    · rw [pathStart, if_pos (startsWith_text _), pieces_text (fun n hn => (hnames n hn).2.2.2) hne]
      exact .skip rfl (by decide) hreaches
  exact create_of_absent hnull hlocate

/-- An absolute path of plain names is walked name by name. -/
theorem reaches_of_leadsTo {names : List Text} (h : ∀ name ∈ names, .scalar '/' ∉ name)
    (hne : names ≠ []) (hleads : d.LeadsTo (Path.mk "/" names).text place) :
    ∃ entry, d.Reaches false maxLinks [] names (.present place entry) := by
  obtain ⟨entry, hlocate⟩ := hleads
  obtain ⟨-, -, hreaches⟩ := locateMade_eq_ok_iff.1 hlocate
  rw [pathStart, if_pos (startsWith_text names), pieces_text h hne] at hreaches
  refine ⟨entry, ?_⟩
  cases hreaches with
  | skip _ _ hrest => exact hrest
  | follow _ hstep | on _ hstep => exact absurd hstep.isName (by decide)

theorem find?_clearBelow (hne : place ≠ []) (d : Disk) (q : Location) :
    (Explorer.clearBelow place d).find? q = if place <+: q then none else d.find? q := by
  by_cases hq : q = []
  · subst hq
    rw [if_neg fun hprefix => hne (List.prefix_nil.1 hprefix)]
    rfl
  rw [find?_of_ne_nil hq, find?_of_ne_nil hq, Explorer.clearBelow, List.find?_filter]
  split_ifs with hprefix
  · rw [List.find?_eq_none.2, Option.map_none]
    rintro e - hand
    simp only [Bool.not_eq_true', decide_eq_true_eq, isSame_eq_true_iff] at hand
    rw [hand.2, List.isPrefixOf_iff_prefix.2 hprefix] at hand
    simp at hand
  · refine congrArg (Option.map _) (congrArg (List.find? · _) (funext fun e => ?_))
    by_cases he : isSame e.1 q = true
    · have hout : place.isPrefixOf e.1 = false := by
        rw [isSame_eq_true_iff.1 he, ← Bool.not_eq_true, List.isPrefixOf_iff_prefix]
        exact hprefix
      simp [he, hout]
    · simp [he]

end Disk

namespace Explorer

open Disk

/-- A directory that is not there yet, and will be the one that a run keeps its files in. -/
structure Fresh (work : Location) (d : Disk) : Prop where
  ne : work ≠ []
  plain : ∀ name ∈ work, Path.IsPlain name
  above : ∀ front, front <+: work → front ≠ work → d.find? front = some .directory
  below : ∀ q, work <+: q → d.find? q = none

variable {w : World} {d : Disk}

theorem Fresh.sameBut {work : Location} {d' : Disk} {p : Option Location} (h : Fresh work d)
    (hsame : SameBut p d d') : Fresh work d' where
  ne := h.ne
  plain := h.plain
  above front hfront hne := hsame.find?_eq_some (h.above front hfront hne) (by simp)
  below q hq := hsame.find?_eq_none (h.below q hq)

theorem find?_layOut (h : w.work ≠ []) (q : Location) : (layOut w).find? q =
    if q ∈ [w.work, (copiesPath w).names, (emptyPath w).names] then some .directory
    else w.disk.find? q := by
  have hcopies : (copiesPath w).names ≠ [] := by simp [copiesPath, Path.below]
  have hempty : (emptyPath w).names ≠ [] := by simp [emptyPath, Path.below]
  simp only [layOut, List.foldl_cons, List.foldl_nil, find?_put]
  by_cases hq : q ∈ [w.work, (copiesPath w).names, (emptyPath w).names]
  · rw [if_pos hq]
    simp only [List.mem_cons, List.not_mem_nil, or_false] at hq
    rcases hq with rfl | rfl | rfl
    · simp [h]
    · simp [hcopies]
    · simp [hempty]
  · rw [if_neg hq]
    simp only [List.mem_cons, List.not_mem_nil, or_false, not_or] at hq
    simp [hq]

theorem find?_layOut_outside {q : Location} (h : w.work ≠ []) (hq : ¬w.work <+: q) :
    (layOut w).find? q = w.disk.find? q := by
  rw [find?_layOut h, if_neg]
  intro hmem
  simp only [List.mem_cons, List.not_mem_nil, or_false] at hmem
  rcases hmem with rfl | rfl | rfl
  · exact hq List.prefix_rfl
  · exact hq (List.prefix_append _ _)
  · exact hq (List.prefix_append _ _)

/-- The directories that the copy of a script lies in. -/
theorem find?_layOut_above (h : Fresh w.work w.disk) {front : Location}
    (hfront : front <+: (copiesPath w).names) : (layOut w).find? front = some .directory := by
  rw [find?_layOut h.ne]
  split_ifs with hmem
  · rfl
  · simp only [List.mem_cons, not_or] at hmem
    have hwork : front <+: w.work := (List.prefix_concat_iff.1 hfront).resolve_left hmem.2.1
    exact h.above front hwork hmem.1

theorem slash_not_mem_name (script : Text) :
    .scalar '/' ∉ (Path.ofText script).name := by
  unfold Path.name
  rcases hlast : (Path.ofText script).names.getLast? with - | name
  · simp
  · exact Text.not_mem_of_mem_splitOn _ _ _
      (List.mem_of_mem_filter (List.mem_of_getLast? hlast))

theorem not_mem_hex {c : Char} (h : ∀ k < 16, Nat.digitChar k ≠ c) (width n : Nat) :
    .scalar c ∉ Numeral.hex width n := by
  intro hmem
  simp only [Numeral.hex, List.mem_map, CodePoint.scalar.injEq] at hmem
  obtain ⟨i, -, hi⟩ := hmem
  exact h _ (Nat.mod_lt _ (by decide)) hi

theorem copyName_plain (place : Location) (script : Text) :
    .scalar '/' ∉ Instrument.copyName place (.ofText script) ∧
      Path.isName (Instrument.copyName place (.ofText script)) = true ∧
      Instrument.copyName place (.ofText script) ≠ ".." := by
  have hlength : 8 < (Instrument.copyName place (.ofText script)).length := by
    simp only [Instrument.copyName, Instrument.siteDigest, List.length_append, Numeral.length_hex]
    have hline : (Text.ofString "_").length = 1 := rfl
    omega
  refine ⟨?_, ?_, ?_⟩
  · simp only [Instrument.copyName, Instrument.siteDigest, List.mem_append, not_or]
    exact ⟨⟨not_mem_hex (by decide) _ _, by decide⟩, slash_not_mem_name script⟩
  · rw [Path.isName, Bool.and_eq_true]
    refine ⟨decide_eq_true ?_, decide_eq_true ?_⟩
    · intro heq
      simp [heq] at hlength
    · intro heq
      simp [heq] at hlength
  · intro heq
    rw [heq] at hlength
    exact absurd hlength (by decide)

/-- The place of a script file. -/
def scriptPlace (d : Disk) (script : Text) : Location :=
  match d.locate (Path.ofText script).text with
  | .ok (.present place _) => place
  | _ => []

/-- The path of the copy of a script file. -/
def copyPath (d : Disk) (script : Text) (directory : Path) : Path :=
  directory.below (Instrument.copyName (scriptPlace d script) (.ofText script))

theorem fileBytes_eq (d : Disk) (constructs : List Construct) (script : Text) :
    Instrument.fileBytes d constructs script =
      match d.read (Path.ofText script).text with
      | .error fault => .error (.disk fault)
      | .ok content =>
        match Instrument.fault? (.ofPath constructs script) 1 (Utf8.decode content) with
        | some fault => .error (.script fault)
        | none => .ok (Instrument.bytes constructs script content) := by
  unfold Instrument.fileBytes
  rcases d.read (Path.ofText script).text with f | content
  · rfl
  · dsimp only
    change (match Instrument.fault? (.ofPath constructs script) 1 (Utf8.decode content) with
      | some fault => throw _
      | none => pure _) = _
    rcases Instrument.fault? (.ofPath constructs script) 1 (Utf8.decode content) <;> rfl

theorem copy_eq (d : Disk) (constructs : List Construct) (script : Text) (directory : Path) :
    Instrument.copy d constructs script directory =
      match Instrument.fileBytes d constructs script with
      | .error e => .error e
      | .ok content =>
        match d.write (copyPath d script directory).text content with
        | .error f => .error (.disk f)
        | .ok d' => .ok (copyPath d script directory, d') := by
  unfold Instrument.copy
  rcases Instrument.fileBytes d constructs script with e | content
  · rfl
  · change (d.write (copyPath d script directory).text content).mapError _ >>= _ = _
    dsimp only
    rcases d.write (copyPath d script directory).text content with f | d' <;> rfl

/-- A copy whose name is not too long can be made. -/
theorem exists_create_copyPath (h : Fresh w.work w.disk) (d : Disk) (script : Text)
    (hshort : ∀ name ∈ w.work, isLongName name = false)
    (hname : isLongName (Instrument.copyName (scriptPlace d script) (.ofText script)) = false)
    (hlong : isLongPath (copyPath d script (copiesPath w)).text = false)
    (hnull : hasNull (copyPath d script (copiesPath w)).text = false) :
    ∃ created, (layOut w).create (copyPath d script (copiesPath w)).text = .ok created := by
  obtain ⟨hslash, hisName, hdots⟩ := copyName_plain (scriptPlace d script) script
  have hpath : copyPath d script (copiesPath w) = ⟨"/", (copiesPath w).names ++
    [Instrument.copyName (scriptPlace d script) (.ofText script)]⟩ := rfl
  rw [hpath] at hlong hnull ⊢
  generalize Instrument.copyName (scriptPlace d script) (.ofText script) = name at *
  have hnames : ∀ n ∈ (copiesPath w).names ++ [name], Path.isName n = true ∧ n ≠ ".." ∧
      isLongName n = false ∧ .scalar '/' ∉ n := fun n hn => by
    simp only [copiesPath, workPath, Path.below, List.mem_append, List.mem_singleton] at hn
    rcases hn with (hwork | rfl) | rfl
    · have hplain := h.plain n hwork
      exact ⟨hplain.isName, hplain.ne, hshort n hwork, hplain.slash⟩
    · decide
    · exact ⟨hisName, hdots, hname, hslash⟩
  have hne : (copiesPath w).names ++ [name] ≠ [] := by simp
  have hbelow : w.work <+: (copiesPath w).names ++ [name] := by
    rw [copiesPath, workPath, Path.below, List.append_assoc]
    exact List.prefix_append _ _
  have hnone : (layOut w).find? ((copiesPath w).names ++ [name]) = none := by
    rw [find?_layOut h.ne, h.below _ hbelow, if_neg]
    simp [copiesPath, emptyPath, workPath, Path.below]
  exact ⟨_, create_absent hne hnames (fun front hfront hother => find?_layOut_above h
    ((List.prefix_concat_iff.1 hfront).resolve_left hother)) hnone hlong hnull⟩

/-- The names on the path of a copy stand for nothing but themselves. -/
theorem names_copy_plain (h : Fresh w.work d) (source : Location) (script : Text) :
    ∀ n ∈ (copiesPath w).names ++ [Instrument.copyName source (.ofText script)],
      Path.isName n = true ∧ n ≠ ".." ∧ .scalar '/' ∉ n := fun n hn => by
  simp only [copiesPath, workPath, Path.below, List.mem_append, List.mem_singleton] at hn
  rcases hn with (hwork | rfl) | rfl
  · exact ⟨(h.plain n hwork).isName, (h.plain n hwork).ne, (h.plain n hwork).slash⟩
  · decide
  · obtain ⟨hslash, hname, hdots⟩ := copyName_plain source script
    exact ⟨hname, hdots, hslash⟩

theorem work_prefix_copy (w : World) (name : Text) : w.work <+: (copiesPath w).names ++ [name] := by
  rw [copiesPath, workPath, Path.below, List.append_assoc]
  exact List.prefix_append _ _

/-- There is no link on the way to a copy. -/
theorem find?_layOut_ne_link (h : Fresh w.work w.disk) {name target : Text} {front : Location}
    (hfront : front <+: (copiesPath w).names ++ [name]) :
    (layOut w).find? front ≠ some (.link target) := by
  rcases List.prefix_concat_iff.1 hfront with rfl | hup
  · rw [find?_layOut h.ne, h.below _ (work_prefix_copy w name)]
    split_ifs <;> simp
  · rw [find?_layOut_above h hup]
    simp

/-- What is written for a run is in its directory. -/
theorem prefix_of_created {source place : Location} {script : Text} (h : Fresh w.work w.disk)
    (hcreated : (layOut w).Created
      ((copiesPath w).below (Instrument.copyName source (.ofText script))).text place d) :
    w.work <+: place := by
  have hnames := names_copy_plain h source script
  obtain ⟨entry, hreaches⟩ :=
    reaches_of_leadsTo (fun n hn => (hnames n hn).2.2) (by simp) hcreated.leads
  have hplace := hreaches.place_eq (fun n hn => ⟨(hnames n hn).1, (hnames n hn).2.1⟩)
    (fun front hfront hne => ?_) (fun target hfind => ?_)
  · rw [List.nil_append] at hplace
    change w.work <+: Found.place (.present place entry)
    rw [hplace]
    exact work_prefix_copy w _
  · have hup := (List.prefix_concat_iff.1 hfront).resolve_left hne
    exact hcreated.waysIn.find _ _ (find?_layOut_above h hup) (.inl rfl)
  · rw [List.nil_append] at hfind
    have hback := hcreated.waysIn_back.find _ _ hfind (.inr (.inr ⟨target, rfl⟩))
    exact find?_layOut_ne_link h List.prefix_rfl hback

/-- A run leaves the disk as it was. -/
theorem sameBut_clearBelow {constructs : List Construct} {script : Text} {copy : Path}
    (h : Fresh w.work w.disk)
    (hcopy : Instrument.copy (layOut w) constructs script (copiesPath w) = .ok (copy, d)) :
    SameBut none w.disk (clearBelow w.work d) := by
  rw [copy_eq] at hcopy
  split at hcopy
  · cases hcopy
  split at hcopy
  · cases hcopy
  rename_i _ content _ _ d' hwrite
  obtain ⟨rfl, rfl⟩ := Prod.mk.inj (Except.ok.inj hcopy)
  obtain ⟨place, opened, hcreated, rfl⟩ := write_cases hwrite
  have hplace : w.work <+: place := prefix_of_created h hcreated
  have hout : ∀ q, ¬w.work <+: q →
      (opened.writeAt place 0 content).find? q = w.disk.find? q := fun q hq => by
    have hne : q ≠ place := fun heq => hq (heq ▸ hplace)
    rw [(sameBut_writeAt opened place 0 content).away q (by simpa using Ne.symm hne),
      hcreated.away q hne, find?_layOut_outside h.ne hq]
  have hsame : ∀ q, (clearBelow w.work (opened.writeAt place 0 content)).find? q
      = w.disk.find? q := fun q => by
    rw [find?_clearBelow h.ne]
    split_ifs with hq
    · rw [h.below q hq]
    · exact hout q hq
  refine ⟨?_, fun q => .inl (hsame q).symm, fun q _ => hsame q⟩
  exact (sameBut_writeAt opened place 0 content).here.trans hcreated.here

end Explorer

end ShellProbe
