import ShellProbe.Command.Options
import ShellProbe.Proofs.Makings

/-!
# The paths of a command line

Values come in one by one from the texts of a command line, so a path among them was read from a
text (`isRead_read`).
-/

namespace ShellProbe

namespace CommandLine

/-- A path that a value holds was read. -/
def Value.IsRead (v : Value) : Prop := ∀ p, v = .path p → p.IsRead

/-- All values so far were read. -/
def Reading.IsRead (r : Reading) : Prop := ∀ p ∈ r.values, p.2.IsRead

variable {g : Grammar} {r r' : Reading} {a : Argument} {ts : List Text} {t name : Text} {v : Value}
  {values : Values} {classed : Classed}

theorem exists_of_bind_eq_ok {α β : Type} {m : Except Failure α} {f : α → Except Failure β} {b : β}
    (h : (m >>= f) = .ok b) : ∃ c, m = .ok c ∧ f c = .ok b := by
  cases m with
  | error e => cases h
  | ok c => exact ⟨c, rfl, h⟩

theorem isRead_convert (h : convert a t = .ok v) : v.IsRead := by
  rintro p rfl
  unfold convert at h
  split at h
  · cases h
  · obtain rfl := Value.path.inj (Except.ok.inj h)
    exact Path.isRead_ofText t
  all_goals split at h <;> cases h

theorem isRead_valueOf (h : valueOf a ts = .ok v) : v.IsRead := by
  have hplain : v.path? = none → v.IsRead := by
    rintro hnone p rfl
    cases hnone
  unfold valueOf at h
  split at h
  · exact hplain (Except.ok.inj h ▸ rfl)
  · exact hplain (Except.ok.inj h ▸ rfl)
  · exact hplain (Except.ok.inj h ▸ rfl)
  · split at h
    · exact isRead_convert h
    · exact hplain (Except.ok.inj h ▸ rfl)

namespace Reading.IsRead

theorem take (hr : r.IsRead) (h : r.take a ts = .ok r') : r'.IsRead := by
  unfold Reading.take at h
  split_ifs at h
  obtain ⟨v, hv, h⟩ := exists_of_bind_eq_ok h
  obtain rfl := Except.ok.inj h
  intro p hp
  obtain ⟨q, hq, rfl⟩ := List.mem_map.1 hp
  split_ifs
  · exact isRead_valueOf hv
  · exact hr q hq

theorem takeAll : ∀ {taken : List (Argument × List Text)} {r r' : Reading}, r.IsRead →
    r.takeAll taken = .ok r' → r'.IsRead
  | [], _, _, hr, h => Except.ok.inj h ▸ hr
  | (_, _) :: _, _, _, hr, h => by
    obtain ⟨_, hu, h⟩ := exists_of_bind_eq_ok h
    exact takeAll (hr.take hu) h

theorem fill {n : Nat} (hr : r.IsRead) (h : r.fill classed = .ok (r', n)) : r'.IsRead := by
  obtain ⟨u, hu, h⟩ := exists_of_bind_eq_ok h
  obtain ⟨rfl, -⟩ := Prod.mk.inj (Except.ok.inj h)
  exact (hr.takeAll hu : u.IsRead)

theorem run (hr : r.IsRead) (h : Reading.run g r classed = .ok r') : r'.IsRead := by
  fun_induction Reading.run g r classed with
  | case1 r =>
    obtain ⟨⟨u, n⟩, hu, h⟩ := exists_of_bind_eq_ok h
    exact Except.ok.inj h ▸ hr.fill hu
  | case2 r t spelled behind hnone ih => exact ih hr h
  | case3 r t spelled behind a hsome ih =>
    obtain ⟨⟨k, n⟩, -, h⟩ := exists_of_bind_eq_ok h
    obtain ⟨u, hu, h⟩ := exists_of_bind_eq_ok h
    exact ih n u (hr.takeAll hu) h
  | case4 r first behind hoption ihSkipped ih =>
    obtain ⟨⟨u, n⟩, hu, h⟩ := exists_of_bind_eq_ok h
    have hfilled := hr.fill hu
    dsimp only at h
    split_ifs at h
    · cases n with
      | zero => exact ihSkipped u hfilled h
      | succ n => exact ih u n hfilled h
    · exact Except.ok.inj h ▸ hfilled

end Reading.IsRead

/-- Where the values that are there at first hold no paths, all paths were read. -/
theorem isRead_read (hinitial : (Reading.initial g).IsRead) (h : read g ts = .ok values) :
    ∀ p ∈ values, p.2.IsRead := by
  obtain ⟨classed, -, h⟩ := exists_of_bind_eq_ok h
  obtain ⟨r, hr, h⟩ := exists_of_bind_eq_ok h
  have hread := hinitial.run hr
  unfold Reading.finish at h
  split at h
  · split_ifs at h
    exact Except.ok.inj h ▸ hread
  · cases h

theorem Values.isRead_path {path : Path} (h : ∀ p ∈ values, p.2.IsRead)
    (hslot : values.slot? Value.path? name = some (.filled path)) : path.IsRead := by
  have hfind : values.find name = .path path := by
    unfold Values.slot? at hslot
    cases hvalue : values.find name <;> simp [hvalue, Value.path?] at hslot
    rw [hslot]
  unfold Values.find at hfind
  rcases hmem : values.find? fun p => p.1 = name with - | p <;> rw [hmem] at hfind
  · cases hfind
  · exact h p (List.mem_of_find?_eq_some hmem) path hfind

end CommandLine

namespace Explorer

open CommandLine

theorem isRead_metadataPath {o : Options} {ts : List Text} {path : Path}
    (hread : Options.read ts = .ok o) (h : o.metadataPath? = some path) : path.IsRead := by
  have hinitial : (Reading.initial grammar).IsRead := by
    have hpaths : ∀ p ∈ (Reading.initial grammar).values, p.2.path? = none := by decide +kernel
    intro p hp q hq
    have hnone := hpaths p hp
    rw [hq] at hnone
    cases hnone
  unfold Options.read at hread
  rcases hvalues : CommandLine.read grammar ts with failure | values <;> rw [hvalues] at hread
  · cases hread
  · obtain rfl := Except.ok.inj hread
    obtain ⟨slot, hslot, hvalue⟩ := Option.bind_eq_some_iff.1 h
    cases slot with
    | vacant => cases hvalue
    | filled p =>
      obtain rfl := Option.some.inj hvalue
      exact Values.isRead_path (isRead_read hinitial hvalues) hslot

end Explorer

end ShellProbe
