import Mathlib.Data.List.Basic
import Mathlib.Tactic.SplitIfs
import ShellProbe.Proofs.Lines
import ShellProbe.Text.Utf8

/-!
# Decoding

A newline byte belongs to no longer sequence, so whatever stands in front of it, bytes are decoded
one line after the other (`decode_append`, `lines_decode`). A text of scalars is read back from its
own bytes, whatever follows them (`decode_encode`), and all bytes are those of the text read from
them (`encode_decode`).
-/

namespace ShellProbe

namespace Utf8

/-- The newline as a byte. -/
def newlineByte : UInt8 := 0x0A

/-- The scalar that bytes start with, and how many bytes it takes behind the first. -/
def Scan.scalar? : Scan → Option (Char × Nat)
  | scalar c more => some (c, more)
  | malformed _ _ => none

theorem decode_cons (b : UInt8) (t : Bytes) :
    decode (b :: t) = match (scan b t).scalar? with
      | some (c, more) => .scalar c :: decode (t.drop more)
      | none => .ofStrayByte b :: decode t := by
  rw [decode]
  cases scan b t <;> rfl

/-! ## Leads -/

/-- What a lead says of the sequence behind it. -/
theorem Lead.ranges {b : UInt8} {lead : Lead} (h : Lead.ofByte? b = some lead) :
    0x80 ≤ lead.low.toNat ∧ lead.high.toNat ≤ 0xBF ∧
      ((lead.more = 1 ∧ b.toNat = 0xC0 + lead.bits ∧ 2 ≤ lead.bits ∧ lead.bits < 0x20) ∨
      (lead.more = 2 ∧ b.toNat = 0xE0 + lead.bits ∧ lead.bits < 0x10 ∧
        (1 ≤ lead.bits ∨ 0xA0 ≤ lead.low.toNat) ∧ (lead.bits ≠ 13 ∨ lead.high.toNat ≤ 0x9F)) ∨
      (lead.more = 3 ∧ b.toNat = 0xF0 + lead.bits ∧ lead.bits ≤ 4 ∧
        (1 ≤ lead.bits ∨ 0x90 ≤ lead.low.toNat) ∧ (lead.bits ≠ 4 ∨ lead.high.toNat ≤ 0x8F))) := by
  have hb := b.toNat_lt
  unfold Lead.ofByte? at h
  simp only [UInt8.lt_iff_toNat_lt, ← UInt8.toNat_inj, UInt8.reduceToNat] at h
  split_ifs at h <;> simp only [Option.some.injEq] at h <;> subst h <;>
    simp <;> omega

/-- The byte behind a lead is no ASCII, and the sequence stands for a number beyond ASCII. -/
theorem Lead.bounds {b : UInt8} {lead : Lead} (h : Lead.ofByte? b = some lead) :
    0x80 ≤ lead.low.toNat ∧ ((1 ≤ lead.more ∧ 2 ≤ lead.bits) ∨
      (2 ≤ lead.more ∧ (1 ≤ lead.bits ∨ 0x90 ≤ lead.low.toNat))) := by
  have hranges := Lead.ranges h
  omega

/-! ## Sequences -/

theorem scanTail_cons (low high : UInt8) (bits seen more : Nat) (b : UInt8) (t : Bytes) :
    scanTail low high bits seen (more + 1) (b :: t) = if low ≤ b ∧ b ≤ high then
      scanTail 0x80 0xBF (bits * 64 + (b.toNat - 0x80)) (seen + 1) more t
    else .malformed .invalidContinuation seen := by
  rw [scanTail]

theorem more_of_scanTail {c : Char} {m : Nat} : ∀ {more : Nat} {t : Bytes} {low high : UInt8}
    {bits seen : Nat}, scanTail low high bits (seen + 1) more t = .scalar c m →
      m = seen + more ∧ more ≤ t.length
  | 0, t, _, _, _, _, h => by
    simp only [scanTail, Scan.scalar.injEq] at h
    exact ⟨by omega, Nat.zero_le _⟩
  | more + 1, [], _, _, _, _, h => by simp [scanTail] at h
  | more + 1, b :: t, _, _, _, _, h => by
    rw [scanTail_cons] at h
    split_ifs at h
    obtain ⟨hm, hlength⟩ := more_of_scanTail h
    rw [List.length_cons]
    omega

/-- A sequence does not go on behind a newline. -/
theorem scanTail_append (u : Bytes) : ∀ (more : Nat) (t : Bytes) {low high : UInt8}
    {bits seen : Nat}, 0x80 ≤ low.toNat →
      (scanTail low high bits seen more (t ++ newlineByte :: u)).scalar?
        = (scanTail low high bits seen more t).scalar?
  | 0, _, _, _, _, _, _ => by simp only [scanTail]
  | more + 1, [], low, high, _, _, h => by
    have hlow : ¬ (low ≤ newlineByte ∧ newlineByte ≤ high) := fun hn => by
      have := UInt8.le_iff_toNat_le.1 hn.1
      simp only [newlineByte, UInt8.reduceToNat] at this
      omega
    rw [List.nil_append, scanTail_cons, if_neg hlow]
    simp only [scanTail, Scan.scalar?]
  | more + 1, b :: t, _, _, _, _, _ => by
    rw [List.cons_append, scanTail_cons, scanTail_cons]
    split_ifs
    · exact scanTail_append u more t (by decide)
    · rfl

theorem toNat_ofNat {n : Nat} (h : n.isValidChar) : (Char.ofNat n).toNat = n := by
  unfold Char.ofNat
  rw [dif_pos h]
  rfl

theorem ofNat_ne_newline {n : Nat} (h : 128 ≤ n) : Char.ofNat n ≠ '\n' := by
  intro heq
  by_cases hvalid : n.isValidChar
  · have hnat := congrArg Char.toNat heq
    rw [toNat_ofNat hvalid] at hnat
    have hten : n = 10 := hnat
    omega
  · unfold Char.ofNat at heq
    rw [dif_neg hvalid] at heq
    exact absurd heq (by decide)

/-- No longer sequence stands for a newline. -/
theorem ne_newline_of_scanTail {c : Char} {m : Nat} : ∀ {more : Nat} {t : Bytes}
    {low high : UInt8} {bits seen : Nat},
    128 ≤ bits ∨ (1 ≤ more ∧ 2 ≤ bits) ∨ (2 ≤ more ∧ (1 ≤ bits ∨ 0x90 ≤ low.toNat)) →
      scanTail low high bits seen more t = .scalar c m → c ≠ '\n'
  | 0, _, _, _, bits, _, hbits, h => by
    simp only [scanTail, Scan.scalar.injEq] at h
    rw [← h.1]
    exact ofNat_ne_newline (by omega)
  | more + 1, [], _, _, _, _, _, h => by simp [scanTail] at h
  | more + 1, b :: t, low, _, bits, _, hbits, h => by
    rw [scanTail_cons] at h
    split_ifs at h with hb
    have hle := UInt8.le_iff_toNat_le.1 hb.1
    exact ne_newline_of_scanTail (by omega) h

section Scan

variable {b : UInt8} {t : Bytes}

/-- A scalar is a byte of ASCII, or a lead and what it announces. -/
theorem scan_cases {c : Char} {m : Nat} (h : (scan b t).scalar? = some (c, m)) :
    (b < 0x80 ∧ Char.ofNat b.toNat = c ∧ m = 0) ∨ ∃ lead, Lead.ofByte? b = some lead ∧
      scanTail lead.low lead.high lead.bits 1 lead.more t = .scalar c m := by
  unfold scan at h
  split_ifs at h with hlt
  · simp only [Scan.scalar?, Option.some.injEq, Prod.mk.injEq] at h
    exact .inl ⟨hlt, h.1, h.2.symm⟩
  · split at h
    · simp [Scan.scalar?] at h
    · rename_i lead hlead
      refine .inr ⟨lead, hlead, ?_⟩
      rcases hs : scanTail lead.low lead.high lead.bits 1 lead.more t with ⟨d, n⟩ | _
      · rw [hs, Scan.scalar?, Option.some.injEq, Prod.mk.injEq] at h
        rw [h.1, h.2]
      · simp [hs, Scan.scalar?] at h

theorem more_of_scan {c : Char} {m : Nat} (h : (scan b t).scalar? = some (c, m)) :
    m ≤ t.length := by
  rcases scan_cases h with ⟨-, -, rfl⟩ | ⟨lead, -, htail⟩
  · exact Nat.zero_le _
  · have hmore := more_of_scanTail htail
    omega

theorem scan_append (b : UInt8) (t u : Bytes) :
    (scan b (t ++ newlineByte :: u)).scalar? = (scan b t).scalar? := by
  unfold scan
  split_ifs
  · rfl
  · split
    · rfl
    · rename_i lead hlead
      exact scanTail_append u lead.more t (Lead.bounds hlead).1

theorem ne_newline_of_scan {c : Char} {m : Nat} (hb : b ≠ newlineByte)
    (h : (scan b t).scalar? = some (c, m)) : c ≠ '\n' := by
  rcases scan_cases h with ⟨hlt, rfl, -⟩ | ⟨lead, hlead, htail⟩
  · intro heq
    refine hb (UInt8.toNat_inj.1 ?_)
    have hnat := congrArg Char.toNat heq
    have hbound := UInt8.lt_iff_toNat_lt.1 hlt
    simp only [UInt8.reduceToNat] at hbound
    rw [toNat_ofNat (.inl (by omega))] at hnat
    exact hnat
  · exact ne_newline_of_scanTail (.inr (Lead.bounds hlead).2) htail

end Scan

/-! ## Lines -/

theorem decode_newline (u : Bytes) : decode (newlineByte :: u) = Text.newline :: decode u := by
  rw [decode_cons]
  rfl

/-- What stands in front of a newline, damaged or not, is decoded apart from what stands behind. -/
theorem decode_append (u : Bytes) : ∀ t : Bytes,
    decode (t ++ newlineByte :: u) = decode t ++ Text.newline :: decode u
  | [] => by simp only [List.nil_append, decode_newline, decode]
  | b :: t => by
    rw [List.cons_append, decode_cons, decode_cons, scan_append]
    rcases hs : (scan b t).scalar? with _ | ⟨c, more⟩
    · simp only [decode_append u t, List.cons_append]
    · have hmore := more_of_scan hs
      simp only [List.drop_append_of_le_length hmore, decode_append u (t.drop more),
        List.cons_append]
termination_by t => t.length
decreasing_by all_goals (simp only [List.length_cons, List.length_drop]; omega)

theorem newline_not_mem_decode : ∀ {t : Bytes}, newlineByte ∉ t → Text.newline ∉ decode t
  | [], _ => by simp [decode]
  | b :: t, h => by
    simp only [List.mem_cons, not_or] at h
    rw [decode_cons]
    rcases hs : (scan b t).scalar? with _ | ⟨c, more⟩
    · simp only [List.mem_cons, not_or]
      exact ⟨by simp [Text.newline, CodePoint.ofStrayByte], newline_not_mem_decode h.2⟩
    · simp only [List.mem_cons, not_or]
      refine ⟨fun heq => ?_, newline_not_mem_decode fun hm => h.2 (List.mem_of_mem_drop hm)⟩
      exact ne_newline_of_scan (Ne.symm h.1) hs (CodePoint.scalar.inj heq).symm
termination_by t => t.length
decreasing_by all_goals (simp only [List.length_cons, List.length_drop]; omega)

/-- The lines of a decoded text are the lines of the bytes, each decoded on its own. -/
theorem lines_decode (bytes : Bytes) :
    (decode bytes).lines = (bytes.splitOn newlineByte).map decode := by
  by_cases h : newlineByte ∈ bytes
  · obtain ⟨s, t, rfl, hs⟩ := List.eq_append_cons_of_mem h
    have ih := lines_decode t
    rw [Text.lines, Text.splitOn_eq] at ih ⊢
    rw [decode_append, List.splitOn_append_cons_self_of_not_mem (newline_not_mem_decode hs),
      List.splitOn_append_cons_self_of_not_mem hs, ih, List.map_cons]
  · rw [Text.lines_of_not_mem (newline_not_mem_decode h), List.splitOn_eq_singleton h,
      List.map_singleton]
termination_by bytes.length
decreasing_by simp_all; omega

/-! ## Scalars -/

section Encoded

variable {v : Nat}

theorem toNat_byte {n : Nat} (h : n < 256) : (UInt8.ofNat n).toNat = n :=
  UInt8.toNat_ofNat_of_lt' h

/-- A continuation byte adds its six bits. -/
theorem scanTail_ofNat {low high : UInt8} {x : Nat} (hx : x < 64) (hlow : low.toNat ≤ x + 0x80)
    (hhigh : x + 0x80 ≤ high.toNat) (bits seen more : Nat) (t : Bytes) :
    scanTail low high bits seen (more + 1) (UInt8.ofNat (x + 0x80) :: t)
      = scanTail 0x80 0xBF (bits * 64 + x) (seen + 1) more t := by
  have hbyte : (UInt8.ofNat (x + 0x80)).toNat = x + 0x80 := toNat_byte (by omega)
  rw [scanTail_cons, if_pos, hbyte, Nat.add_sub_cancel]
  rw [UInt8.le_iff_toNat_le, UInt8.le_iff_toNat_le, hbyte]
  exact ⟨hlow, hhigh⟩

theorem exists_lead_one (h : 0x7F < v) (h' : v ≤ 0x7FF) :
    ∃ lead, Lead.ofByte? (UInt8.ofNat (v / 64 % 0x20 + 0xC0)) = some lead ∧
      lead.bits = v / 64 ∧ lead.more = 1 ∧ lead.low = 0x80 ∧ lead.high = 0xBF := by
  have hbyte : (UInt8.ofNat (v / 64 % 0x20 + 0xC0)).toNat = v / 64 % 0x20 + 0xC0 :=
    toNat_byte (by omega)
  unfold Lead.ofByte?
  simp only [UInt8.lt_iff_toNat_lt, hbyte, UInt8.reduceToNat]
  rw [if_neg (by omega), if_pos (by omega)]
  exact ⟨_, rfl, by simp only []; omega, rfl, rfl, rfl⟩

theorem exists_lead_two (h : 0x7FF < v) (h' : v ≤ 0xFFFF) (hvalid : v.isValidChar) :
    ∃ lead, Lead.ofByte? (UInt8.ofNat (v / 4096 % 0x10 + 0xE0)) = some lead ∧
      lead.bits = v / 4096 ∧ lead.more = 2 ∧ lead.low.toNat ≤ v / 64 % 0x40 + 0x80 ∧
        v / 64 % 0x40 + 0x80 ≤ lead.high.toNat := by
  have hbyte : (UInt8.ofNat (v / 4096 % 0x10 + 0xE0)).toNat = v / 4096 % 0x10 + 0xE0 :=
    toNat_byte (by omega)
  unfold Lead.ofByte?
  simp only [UInt8.lt_iff_toNat_lt, ← UInt8.toNat_inj, hbyte, UInt8.reduceToNat]
  rw [if_neg (by omega), if_neg (by omega)]
  split_ifs
  all_goals first
    | omega
    | exact ⟨_, rfl, by simp only []; omega, rfl, by simp only [UInt8.reduceToNat]; omega,
        by simp only [UInt8.reduceToNat]; omega⟩

theorem exists_lead_three (h : 0xFFFF < v) (hvalid : v.isValidChar) :
    ∃ lead, Lead.ofByte? (UInt8.ofNat (v / 262144 % 0x08 + 0xF0)) = some lead ∧
      lead.bits = v / 262144 ∧ lead.more = 3 ∧ lead.low.toNat ≤ v / 4096 % 0x40 + 0x80 ∧
        v / 4096 % 0x40 + 0x80 ≤ lead.high.toNat := by
  have hbyte : (UInt8.ofNat (v / 262144 % 0x08 + 0xF0)).toNat = v / 262144 % 0x08 + 0xF0 :=
    toNat_byte (by omega)
  unfold Lead.ofByte?
  simp only [UInt8.lt_iff_toNat_lt, ← UInt8.toNat_inj, hbyte, UInt8.reduceToNat]
  rw [if_neg (by omega), if_neg (by omega), if_neg (by omega), if_neg (by omega),
    if_neg (by omega)]
  split_ifs
  all_goals first
    | omega
    | exact ⟨_, rfl, by simp only []; omega, rfl, by simp only [UInt8.reduceToNat]; omega,
        by simp only [UInt8.reduceToNat]; omega⟩

/-- A sequence of several bytes is scanned by its lead. -/
theorem scan_of_lead {n : Nat} {lead : Lead} (hn : 0x80 ≤ n) (hlt : n < 256)
    (h : Lead.ofByte? (UInt8.ofNat n) = some lead) (t : Bytes) :
    scan (UInt8.ofNat n) t = scanTail lead.low lead.high lead.bits 1 lead.more t := by
  unfold scan
  rw [if_neg, h]
  rw [UInt8.lt_iff_toNat_lt, toNat_byte hlt]
  simpa using hn

theorem scan_utf8EncodeChar (c : Char) (t : Bytes) : ∃ b bs,
    String.utf8EncodeChar c = b :: bs ∧ scan b (bs ++ t) = .scalar c bs.length := by
  have hvalid : c.toNat.isValidChar := c.valid
  have hc : Char.ofNat c.toNat = c := Char.ofNat_toNat c
  unfold String.utf8EncodeChar
  rw [show c.val.toNat = c.toNat from rfl]
  set v := c.toNat
  simp only []
  split_ifs with h1 h2 h3
  · refine ⟨_, _, rfl, ?_⟩
    have hbyte : (UInt8.ofNat v).toNat = v := toNat_byte (by omega)
    unfold scan
    rw [if_pos, hbyte, hc]
    · rfl
    · rw [UInt8.lt_iff_toNat_lt, hbyte]
      simp only [UInt8.reduceToNat]
      omega
  · refine ⟨_, _, rfl, ?_⟩
    obtain ⟨lead, hlead, hbits, hmore, hlow, hhigh⟩ := exists_lead_one (v := v) (by omega) h2
    rw [scan_of_lead (by omega) (by omega) hlead, hmore, hlow, hhigh, List.cons_append,
      scanTail_ofNat (by omega) (by simp) (by simp; omega), hbits, scanTail,
      show v / 64 * 64 + v % 64 = v by omega, hc]
    rfl
  · refine ⟨_, _, rfl, ?_⟩
    obtain ⟨lead, hlead, hbits, hmore, hlow, hhigh⟩ :=
      exists_lead_two (v := v) (by omega) h3 hvalid
    rw [scan_of_lead (by omega) (by omega) hlead, hmore, List.cons_append, List.cons_append,
      scanTail_ofNat (by omega) hlow hhigh, scanTail_ofNat (by omega) (by simp) (by simp; omega),
      hbits, scanTail, show (v / 4096 * 64 + v / 64 % 64) * 64 + v % 64 = v by omega, hc]
    rfl
  · refine ⟨_, _, rfl, ?_⟩
    obtain ⟨lead, hlead, hbits, hmore, hlow, hhigh⟩ :=
      exists_lead_three (v := v) (by omega) hvalid
    rw [scan_of_lead (by omega) (by omega) hlead, hmore, List.cons_append, List.cons_append,
      List.cons_append, scanTail_ofNat (by omega) hlow hhigh,
      scanTail_ofNat (by omega) (by simp) (by simp; omega),
      scanTail_ofNat (by omega) (by simp) (by simp; omega), hbits, scanTail,
      show ((v / 262144 * 64 + v / 4096 % 64) * 64 + v / 64 % 64) * 64 + v % 64 = v by omega, hc]
    rfl

end Encoded

/-- A text in which no surrogate stands alone is read back from its bytes. -/
theorem decode_encode (u : Bytes) : ∀ {t : Text}, t.all (·.scalar?.isSome) →
    decode (encode t ++ u) = t ++ decode u
  | [], _ => rfl
  | .surrogate _ :: t, h => by simp [CodePoint.scalar?] at h
  | .scalar c :: t, h => by
    have ht : t.all (·.scalar?.isSome) := by simpa [CodePoint.scalar?] using h
    obtain ⟨b, bs, hencode, hscan⟩ := scan_utf8EncodeChar c (encode t ++ u)
    have hcons : encode (.scalar c :: t) ++ u = b :: (bs ++ (encode t ++ u)) := by
      rw [encode, List.flatMap_cons, encodeCodePoint, hencode]
      simp [encode]
    rw [hcons, decode_cons, hscan]
    simp only [Scan.scalar?, List.drop_left, decode_encode u ht, List.cons_append]

/-! ## Bytes that were read -/

section Back

variable {b : UInt8} {t u : Bytes} {c : Char} {m : Nat}

/-- A sequence that goes on does so with a byte in bounds. -/
theorem scanTail_succ_cases {low high : UInt8} {bits seen more : Nat} (hlow : 0x80 ≤ low.toNat)
    (h : scanTail low high bits seen (more + 1) t = .scalar c m) :
    ∃ x u, t = UInt8.ofNat (x + 0x80) :: u ∧ low.toNat ≤ x + 0x80 ∧ x + 0x80 ≤ high.toNat ∧
      scanTail 0x80 0xBF (bits * 64 + x) (seen + 1) more u = .scalar c m := by
  cases t with
  | nil => simp [scanTail] at h
  | cons b u =>
    rw [scanTail_cons] at h
    split_ifs at h with hb
    rw [UInt8.le_iff_toNat_le, UInt8.le_iff_toNat_le] at hb
    have heq : b.toNat - 0x80 + 0x80 = b.toNat := by omega
    exact ⟨b.toNat - 0x80, u, by rw [heq, UInt8.ofNat_toNat], by omega, by omega, h⟩

theorem scanTail_zero {low high : UInt8} {bits seen : Nat}
    (h : scanTail low high bits seen 0 t = .scalar c m) : c = Char.ofNat bits ∧ m = seen - 1 := by
  rw [scanTail, Scan.scalar.injEq] at h
  exact ⟨h.1.symm, h.2.symm⟩

/-- A scalar that is scanned is the one whose bytes stand there. -/
theorem utf8EncodeChar_of_scan (h : (scan b t).scalar? = some (c, m)) :
    String.utf8EncodeChar c ++ t.drop m = b :: t := by
  have hbyte := b.toNat_lt
  have hb : UInt8.ofNat b.toNat = b := UInt8.ofNat_toNat
  rcases scan_cases h with ⟨hlt, rfl, rfl⟩ | ⟨lead, hlead, htail⟩
  · rw [UInt8.lt_iff_toNat_lt] at hlt
    simp only [UInt8.reduceToNat] at hlt
    have hv : (Char.ofNat b.toNat).val.toNat = b.toNat := toNat_ofNat (.inl (by omega))
    unfold String.utf8EncodeChar
    simp only [hv]
    rw [if_pos (by omega), hb]
    rfl
  obtain ⟨hlow, hhigh, ⟨hmore, hlead, hbits⟩ | ⟨hmore, hlead, hbits⟩ | ⟨hmore, hlead, hbits⟩⟩ :=
    Lead.ranges hlead <;> rw [hmore] at htail <;>
    obtain ⟨x, u, rfl, hx, hx', htail⟩ := scanTail_succ_cases hlow htail
  · obtain ⟨rfl, rfl⟩ := scanTail_zero htail
    have hv : (Char.ofNat (lead.bits * 64 + x)).val.toNat = lead.bits * 64 + x :=
      toNat_ofNat (.inl (by omega))
    unfold String.utf8EncodeChar
    simp only [hv]
    rw [if_neg (by omega), if_pos (by omega),
      show (lead.bits * 64 + x) / 64 % 0x20 + 0xC0 = b.toNat by omega,
      show (lead.bits * 64 + x) % 0x40 + 0x80 = x + 0x80 by omega, hb]
    rfl
  · obtain ⟨y, u, rfl, hy, hy', htail⟩ := scanTail_succ_cases (by decide) htail
    obtain ⟨rfl, rfl⟩ := scanTail_zero htail
    simp only [UInt8.reduceToNat] at hy hy'
    have hv : (Char.ofNat ((lead.bits * 64 + x) * 64 + y)).val.toNat
        = (lead.bits * 64 + x) * 64 + y := toNat_ofNat (by unfold Nat.isValidChar; omega)
    unfold String.utf8EncodeChar
    simp only [hv]
    rw [if_neg (by omega), if_neg (by omega), if_pos (by omega),
      show ((lead.bits * 64 + x) * 64 + y) / 4096 % 0x10 + 0xE0 = b.toNat by omega,
      show ((lead.bits * 64 + x) * 64 + y) / 64 % 0x40 + 0x80 = x + 0x80 by omega,
      show ((lead.bits * 64 + x) * 64 + y) % 0x40 + 0x80 = y + 0x80 by omega, hb]
    rfl
  · obtain ⟨y, u, rfl, hy, hy', htail⟩ := scanTail_succ_cases (by decide) htail
    obtain ⟨z, u, rfl, hz, hz', htail⟩ := scanTail_succ_cases (by decide) htail
    obtain ⟨rfl, rfl⟩ := scanTail_zero htail
    simp only [UInt8.reduceToNat] at hy hy' hz hz'
    have hv : (Char.ofNat (((lead.bits * 64 + x) * 64 + y) * 64 + z)).val.toNat
        = ((lead.bits * 64 + x) * 64 + y) * 64 + z := toNat_ofNat (by unfold Nat.isValidChar; omega)
    unfold String.utf8EncodeChar
    simp only [hv]
    rw [if_neg (by omega), if_neg (by omega), if_neg (by omega),
      show (((lead.bits * 64 + x) * 64 + y) * 64 + z) / 262144 % 0x08 + 0xF0 = b.toNat by omega,
      show (((lead.bits * 64 + x) * 64 + y) * 64 + z) / 4096 % 0x40 + 0x80 = x + 0x80 by omega,
      show (((lead.bits * 64 + x) * 64 + y) * 64 + z) / 64 % 0x40 + 0x80 = y + 0x80 by omega,
      show (((lead.bits * 64 + x) * 64 + y) * 64 + z) % 0x40 + 0x80 = z + 0x80 by omega, hb]
    rfl

/-- A lenient reading loses no byte. -/
theorem encode_decode : ∀ bytes : Bytes, encode (decode bytes) = bytes
  | [] => by simp [decode, encode]
  | b :: t => by
    rw [decode_cons]
    rcases hs : (scan b t).scalar? with _ | ⟨c, m⟩
    · have hstray : 0x80 ≤ b.toNat := by
        by_contra hlt
        have hb : b < 0x80 := UInt8.lt_iff_toNat_lt.2 (by simpa using hlt)
        simp [scan, hb, Scan.scalar?] at hs
      have hbyte : encodeCodePoint (.ofStrayByte b) = [b] := by
        have hback := CodePoint.strayByte?_ofStrayByte b hstray
        unfold CodePoint.ofStrayByte at hback ⊢
        simp only [encodeCodePoint, hback]
      rw [encode, List.flatMap_cons, ← encode, encode_decode t, hbyte]
      rfl
    · have hback := utf8EncodeChar_of_scan hs
      rw [encode, List.flatMap_cons, ← encode, encode_decode (t.drop m)]
      exact hback
termination_by bytes => bytes.length
decreasing_by all_goals (simp only [List.length_cons, List.length_drop]; omega)

/-- Only a newline is written with a newline byte. -/
theorem newline_not_mem_encodeCodePoint {c : CodePoint} (hc : c ≠ Text.newline) :
    newlineByte ∉ encodeCodePoint c := by
  intro hmem
  rcases c with c | u
  · -- What stands in front of the byte and behind it would be decoded apart.
    obtain ⟨s, t, heq, -⟩ := List.eq_append_cons_of_mem hmem
    have hback := decode_encode [] (t := [.scalar c]) rfl
    rw [encode, List.flatMap_singleton, heq, List.append_nil, decode_append] at hback
    have hnewline : Text.newline ∈ decode s ++ Text.newline :: decode t := by simp
    rw [hback] at hnewline
    simp only [decode, List.append_nil, List.mem_singleton] at hnewline
    exact hc hnewline.symm
  · have hhigh : ∀ n, 0x80 ≤ n → n < 0x100 → newlineByte ≠ UInt8.ofNat n := by
      intro n hn hlt heq
      have hnat := congrArg UInt8.toNat heq
      rw [toNat_byte hlt] at hnat
      simp only [newlineByte, UInt8.reduceToNat] at hnat
      omega
    have hu := u.isLt
    simp only [encodeCodePoint, CodePoint.strayByte?] at hmem
    split_ifs at hmem with hstray
    · exact hhigh _ (by omega) (by omega) (List.mem_singleton.1 hmem)
    · simp only [List.mem_cons, List.not_mem_nil, or_false] at hmem
      rcases hmem with heq | heq | heq
      · exact absurd heq (by decide)
      · exact hhigh _ (by omega) (by omega) heq
      · exact hhigh _ (by omega) (by omega) heq

theorem count_newline_encode : ∀ t : Text, (encode t).count newlineByte = t.count Text.newline
  | [] => rfl
  | c :: t => by
    have ih := count_newline_encode t
    rw [encode] at ih ⊢
    rw [List.flatMap_cons, List.count_append, ih]
    by_cases hc : c = Text.newline
    · subst hc
      rw [List.count_cons_self, Nat.add_comm]
      rfl
    · rw [List.count_eq_zero.2 (newline_not_mem_encodeCodePoint hc), Nat.zero_add,
        List.count_cons_of_ne hc]

end Back

/-! ## Strict reading -/

theorem decodeStrictFrom_cons (start : Nat) (b : UInt8) (t : Bytes) :
    decodeStrictFrom start (b :: t) = match scan b t with
      | .scalar c more => (decodeStrictFrom (start + more + 1) (t.drop more)).map (.scalar c :: ·)
      | .malformed fault length => .error { fault, start, length, byte := b } := by
  cases hscan : scan b t <;> rw [decodeStrictFrom, hscan]

theorem encode_of_decodeStrictFrom : ∀ {bytes : Bytes} {start : Nat} {t : Text},
    decodeStrictFrom start bytes = .ok t → encode t = bytes ∧ t.all (·.scalar?.isSome)
  | [], start, t, h => by
    rw [decodeStrictFrom, Except.ok.injEq] at h
    exact h ▸ ⟨rfl, rfl⟩
  | b :: bytes, start, t, h => by
    rw [decodeStrictFrom_cons] at h
    rcases hscan : scan b bytes with ⟨c, more⟩ | _ <;> rw [hscan] at h
    · dsimp only at h
      rcases hrest : decodeStrictFrom (start + more + 1) (bytes.drop more) with fault | rest <;>
        rw [hrest] at h
      · cases h
      · obtain rfl := Except.ok.inj h
        obtain ⟨hencode, hscalars⟩ := encode_of_decodeStrictFrom hrest
        refine ⟨?_, by simpa [CodePoint.scalar?] using hscalars⟩
        rw [encode, List.flatMap_cons, ← encode, hencode]
        exact utf8EncodeChar_of_scan (by rw [hscan]; rfl)
    · cases h
termination_by bytes => bytes.length
decreasing_by simp only [List.length_cons, List.length_drop]; omega

theorem decodeStrictFrom_encode : ∀ {t : Text} (start : Nat), t.all (·.scalar?.isSome) →
    decodeStrictFrom start (encode t) = .ok t
  | [], start, _ => by simp [encode, decodeStrictFrom]
  | .surrogate _ :: t, _, h => by simp [CodePoint.scalar?] at h
  | .scalar c :: t, start, h => by
    have ht : t.all (·.scalar?.isSome) := by simpa [CodePoint.scalar?] using h
    obtain ⟨b, bs, hencode, hscan⟩ := scan_utf8EncodeChar c (encode t)
    have hcons : encode (.scalar c :: t) = b :: (bs ++ encode t) := by
      rw [encode, List.flatMap_cons, encodeCodePoint, hencode]
      rfl
    rw [hcons, decodeStrictFrom_cons, hscan]
    simp only [List.drop_left, decodeStrictFrom_encode _ ht]
    rfl

/-- Strict reading gives the text of scalars that the bytes are those of, if there is one. -/
theorem decodeStrict_eq_ok_iff {bytes : Bytes} {t : Text} :
    decodeStrict bytes = .ok t ↔ t.all (·.scalar?.isSome) ∧ encode t = bytes := by
  refine ⟨fun h => (encode_of_decodeStrictFrom h).symm, ?_⟩
  rintro ⟨hscalars, rfl⟩
  exact decodeStrictFrom_encode 0 hscalars

end Utf8

end ShellProbe
