import Mathlib.Tactic.SplitIfs
import SuiteAudit.Text.Utf8

/-! # UTF-8 is read as it is written

The bytes behind the first one of a character carry it to its number (`Partial.Finishes`).  A first
byte and the bytes that finish its character are those that are written for the character
(`finishes_encodeChar`) and no others (`encodeChar_of_finishes`), so bytes are read as a text exactly
when they are those that are written for it (`decode_eq_ok_iff`). -/

namespace SuiteAudit.Utf8

variable {position : Nat} {p : Partial} {b : UInt8} {rest bytes : Bytes} {t : Text} {n : Nat}
  {c : Char}

/-! ### Characters in progress -/

/-- A character in progress with one more byte, which is not its last. -/
def Partial.next (p : Partial) (b : UInt8) : Partial :=
  ⟨p.start, p.first, p.count + 1, p.owed - 1, 0x80, 0xBF, p.withByte b⟩

/-- A byte may carry a character in progress on. -/
def Partial.Admits (p : Partial) (b : UInt8) : Prop := p.low ≤ b.toNat ∧ b.toNat ≤ p.high

/-- Some bytes begin with those that a character in progress owes, and these give it a number. -/
inductive Partial.Finishes : Partial → Bytes → Nat → Bytes → Prop
  | last {p : Partial} {b : UInt8} {rest : Bytes} (owed : p.owed ≤ 1) (admits : p.Admits b) :
      Finishes p (b :: rest) (p.withByte b) rest
  | more {p : Partial} {b : UInt8} {bytes : Bytes} {n : Nat} {rest : Bytes} (owed : ¬ p.owed ≤ 1)
      (admits : p.Admits b) (h : Finishes (p.next b) bytes n rest) :
      Finishes p (b :: bytes) n rest

theorem Partial.Finishes.length_lt (h : p.Finishes bytes n rest) : rest.length < bytes.length := by
  induction h with
  | last => exact Nat.lt_succ_self _
  | more _ _ _ ih => exact Nat.lt_succ_of_lt ih

theorem Partial.Admits.not_outside (h : p.Admits b) : ¬ (b.toNat < p.low ∨ p.high < b.toNat) := by
  unfold Admits at h
  omega

/-- A text is read behind a character when the rest is. -/
theorem cons_map_eq_ok {r : Except Fault Text} (h : (c :: ·) <$> r = .ok t) :
    ∃ t', r = .ok t' ∧ t = c :: t' := by
  cases r with
  | error fault => cases h
  | ok t' => exact ⟨t', rfl, (Except.ok.inj h).symm⟩

theorem decodeFrom_of_finishes (h : p.Finishes bytes n rest) : ∀ position, ∃ position',
    decodeFrom position (some p) bytes = (Char.ofNat n :: ·) <$> decodeFrom position' none rest := by
  induction h with
  | last owed admits =>
      intro position
      refine ⟨position + 1, ?_⟩
      rw [decodeFrom, if_neg admits.not_outside, if_pos owed]
  | @more p b bytes n rest owed admits _ ih =>
      intro position
      obtain ⟨position', hrest⟩ := ih (position + 1)
      refine ⟨position', ?_⟩
      rw [decodeFrom, if_neg admits.not_outside, if_neg owed]
      exact hrest

theorem finishes_of_decodeFrom (h : decodeFrom position (some p) bytes = .ok t) :
    ∃ n rest position' t', p.Finishes bytes n rest ∧ decodeFrom position' none rest = .ok t' ∧
      t = Char.ofNat n :: t' := by
  induction bytes generalizing position p with
  | nil => cases h
  | cons b bytes ih =>
      rw [decodeFrom] at h
      split at h
      · cases h
      · next hinside =>
        have admits : p.Admits b := by
          unfold Partial.Admits
          omega
        split at h
        · next owed =>
          obtain ⟨t', hrest, rfl⟩ := cons_map_eq_ok h
          exact ⟨_, bytes, _, t', .last owed admits, hrest, rfl⟩
        · next owed =>
          obtain ⟨n, rest, position', t', hfinishes, hrest, rfl⟩ := ih h
          exact ⟨n, rest, position', t', .more owed admits hfinishes, hrest, rfl⟩

/-! ### The bytes of a character -/

/-- A byte that carries a character on, whatever the character. -/
def IsTail (b : UInt8) : Prop := 0x80 ≤ b.toNat ∧ b.toNat ≤ 0xBF

theorem finishes_one_iff (h : p.owed = 1) : p.Finishes bytes n rest ↔
    ∃ x, bytes = x :: rest ∧ p.Admits x ∧ p.bits * 0x40 + (x.toNat - 0x80) = n := by
  constructor
  · rintro (⟨-, admits⟩ | ⟨owed, -, -⟩)
    · exact ⟨_, rfl, admits, rfl⟩
    · omega
  · rintro ⟨x, rfl, admits, rfl⟩
    exact .last (by omega) admits

theorem finishes_more_iff (h : ¬ p.owed ≤ 1) : p.Finishes bytes n rest ↔
    ∃ x bytes', bytes = x :: bytes' ∧ p.Admits x ∧ (p.next x).Finishes bytes' n rest := by
  constructor
  · rintro (⟨owed, -⟩ | ⟨-, admits, hmore⟩)
    · exact absurd owed h
    · exact ⟨_, _, rfl, admits, hmore⟩
  · rintro ⟨x, bytes', rfl, admits, hmore⟩
    exact .more h admits hmore

theorem withByte_next (x y : UInt8) : (p.next x).withByte y =
    p.bits * 0x1000 + (x.toNat - 0x80) * 0x40 + (y.toNat - 0x80) := by
  unfold Partial.withByte Partial.next Partial.withByte
  dsimp only
  rw [Nat.add_mul, Nat.mul_assoc]

theorem finishes_two_iff (h : p.owed = 2) : p.Finishes bytes n rest ↔
    ∃ x y, bytes = x :: y :: rest ∧ p.Admits x ∧ IsTail y ∧
      p.bits * 0x1000 + (x.toNat - 0x80) * 0x40 + (y.toNat - 0x80) = n := by
  have hnext (x : UInt8) : (p.next x).owed = 1 := by
    simp [Partial.next, h]
  rw [finishes_more_iff (by omega)]
  constructor
  · rintro ⟨x, bytes', rfl, hx, hmore⟩
    obtain ⟨y, rfl, hy, rfl⟩ := (finishes_one_iff (hnext x)).mp hmore
    exact ⟨x, y, rfl, hx, hy, (withByte_next x y).symm⟩
  · rintro ⟨x, y, rfl, hx, hy, rfl⟩
    exact ⟨x, _, rfl, hx, (finishes_one_iff (hnext x)).mpr ⟨y, rfl, hy, withByte_next x y⟩⟩

theorem finishes_three_iff (h : p.owed = 3) : p.Finishes bytes n rest ↔
    ∃ x y z, bytes = x :: y :: z :: rest ∧ p.Admits x ∧ IsTail y ∧ IsTail z ∧
      p.bits * 0x40000 + (x.toNat - 0x80) * 0x1000 + (y.toNat - 0x80) * 0x40 +
        (z.toNat - 0x80) = n := by
  have hnext (x : UInt8) : (p.next x).owed = 2 := by
    simp [Partial.next, h]
  have hbits (x : UInt8) : (p.next x).bits * 0x1000 =
      p.bits * 0x40000 + (x.toNat - 0x80) * 0x1000 := by
    unfold Partial.next Partial.withByte
    dsimp only
    rw [Nat.add_mul, Nat.mul_assoc]
  rw [finishes_more_iff (by omega)]
  constructor
  · rintro ⟨x, bytes', rfl, hx, hmore⟩
    obtain ⟨y, z, rfl, hy, hz, rfl⟩ := (finishes_two_iff (hnext x)).mp hmore
    exact ⟨x, y, z, rfl, hx, hy, hz, by rw [hbits]⟩
  · rintro ⟨x, y, z, rfl, hx, hy, hz, rfl⟩
    exact ⟨x, _, rfl, hx, (finishes_two_iff (hnext x)).mpr ⟨y, z, rfl, hy, hz, by rw [hbits]⟩⟩

/-- What the first byte of a longer character tells: how many bytes the character has, and for a few
first bytes which second one is not admitted. -/
inductive Leads (b : UInt8) (p : Partial) : Prop
  | two (first : 0xC2 ≤ b.toNat ∧ b.toNat ≤ 0xDF) (owed : p.owed = 1)
      (bits : p.bits = b.toNat - 0xC0) (admits : ∀ x, p.Admits x ↔ IsTail x)
  | three (first : 0xE0 ≤ b.toNat ∧ b.toNat ≤ 0xEF) (owed : p.owed = 2)
      (bits : p.bits = b.toNat - 0xE0)
      (admits : ∀ x, p.Admits x ↔ IsTail x ∧ (b.toNat = 0xE0 → 0xA0 ≤ x.toNat) ∧
        (b.toNat = 0xED → x.toNat ≤ 0x9F))
  | four (first : 0xF0 ≤ b.toNat ∧ b.toNat ≤ 0xF4) (owed : p.owed = 3)
      (bits : p.bits = b.toNat - 0xF0)
      (admits : ∀ x, p.Admits x ↔ IsTail x ∧ (b.toNat = 0xF0 → 0x90 ≤ x.toNat) ∧
        (b.toNat = 0xF4 → x.toNat ≤ 0x8F))

theorem leads_of_lead? (h : lead? position b = some p) : Leads b p := by
  unfold lead? at h
  dsimp only at h
  split at h
  · next hb =>
    cases h
    exact .two hb rfl rfl fun x => Iff.rfl
  split at h
  · next hb =>
    cases h
    refine .three (by omega) rfl (by rw [hb]) fun x => ?_
    simp only [Partial.Admits, IsTail]
    omega
  split at h
  · next hb =>
    cases h
    refine .three (by omega) rfl (by rw [hb]) fun x => ?_
    simp only [Partial.Admits, IsTail]
    omega
  split at h
  · next hb =>
    cases h
    refine .three (by omega) rfl rfl fun x => ?_
    simp only [Partial.Admits, IsTail]
    omega
  split at h
  · next hb =>
    cases h
    refine .four (by omega) rfl (by rw [hb]) fun x => ?_
    simp only [Partial.Admits, IsTail]
    omega
  split at h
  · next hb =>
    cases h
    refine .four (by omega) rfl rfl fun x => ?_
    simp only [Partial.Admits, IsTail]
    omega
  split at h
  · next hb =>
    cases h
    refine .four (by omega) rfl (by rw [hb]) fun x => ?_
    simp only [Partial.Admits, IsTail]
    omega
  · cases h

theorem exists_lead? (h : 0xC2 ≤ b.toNat ∧ b.toNat ≤ 0xF4) (position : Nat) :
    ∃ p, lead? position b = some p := by
  unfold lead?
  dsimp only
  split_ifs <;> first | exact ⟨_, rfl⟩ | omega

theorem toNat_byte (h : n < 0x100) : (UInt8.ofNat n).toNat = n := UInt8.toNat_ofNat_of_lt' h

theorem toNat_tail (n : Nat) : (tail n).toNat = 0x80 + n % 0x40 := toNat_byte (by omega)

theorem isTail_tail (n : Nat) : IsTail (tail n) := by
  rw [IsTail, toNat_tail]
  omega

/-- The bytes of a longer character are a first one and those that finish it. -/
theorem finishes_encodeChar (hc : 0x80 ≤ c.toNat) (position : Nat) (rest : Bytes) :
    ∃ b bytes p, encodeChar c ++ rest = b :: bytes ∧ 0x80 ≤ b.toNat ∧ lead? position b = some p ∧
      p.Finishes bytes c.toNat rest := by
  have hvalid : c.toNat < 0xD800 ∨ 0xDFFF < c.toNat ∧ c.toNat < 0x110000 := c.valid
  unfold encodeChar
  generalize c.toNat = n at hc hvalid ⊢
  dsimp only
  rw [if_neg (by omega)]
  split
  · have hb := toNat_byte (n := 0xC0 + n / 0x40) (by omega)
    obtain ⟨p, hp⟩ := exists_lead? (b := UInt8.ofNat (0xC0 + n / 0x40)) (by omega) position
    refine ⟨_, _, p, rfl, by omega, hp, ?_⟩
    cases leads_of_lead? hp with
    | two first owed bits admits =>
        refine (finishes_one_iff owed).mpr ⟨_, rfl, (admits _).mpr (isTail_tail n), ?_⟩
        rw [bits, hb, toNat_tail]
        omega
    | three first | four first => omega
  split
  · have hb := toNat_byte (n := 0xE0 + n / 0x1000) (by omega)
    obtain ⟨p, hp⟩ := exists_lead? (b := UInt8.ofNat (0xE0 + n / 0x1000)) (by omega) position
    refine ⟨_, _, p, rfl, by omega, hp, ?_⟩
    cases leads_of_lead? hp with
    | three first owed bits admits =>
        refine (finishes_two_iff owed).mpr
          ⟨_, _, rfl, (admits _).mpr ⟨isTail_tail _, ?_⟩, isTail_tail n, ?_⟩
        · rw [hb, toNat_tail]
          omega
        · rw [bits, hb, toNat_tail, toNat_tail]
          omega
    | two first | four first => omega
  · have hb := toNat_byte (n := 0xF0 + n / 0x40000) (by omega)
    obtain ⟨p, hp⟩ := exists_lead? (b := UInt8.ofNat (0xF0 + n / 0x40000)) (by omega) position
    refine ⟨_, _, p, rfl, by omega, hp, ?_⟩
    cases leads_of_lead? hp with
    | four first owed bits admits =>
        refine (finishes_three_iff owed).mpr
          ⟨_, _, _, rfl, (admits _).mpr ⟨isTail_tail _, ?_⟩, isTail_tail _, isTail_tail n, ?_⟩
        · rw [hb, toNat_tail]
          omega
        · rw [bits, hb, toNat_tail, toNat_tail, toNat_tail]
          omega
    | two first | three first => omega

theorem eq_byte (h : b.toNat = n) : b = UInt8.ofNat n := by
  rw [← h, UInt8.ofNat_toNat]

theorem eq_tail (h : IsTail b) (hn : n % 0x40 = b.toNat - 0x80) : b = tail n := by
  unfold IsTail at h
  exact eq_byte (by omega)

theorem toNat_ofNat_of_isValid (h : n.isValidChar) : (Char.ofNat n).toNat = n := by
  rw [Char.ofNat, dif_pos h]
  rfl

/-- A first byte and the bytes that finish its character are those of the character. -/
theorem encodeChar_of_finishes (hp : lead? position b = some p) (h : p.Finishes bytes n rest) :
    b :: bytes = encodeChar (Char.ofNat n) ++ rest := by
  have hnat (hn : n < 0xD800 ∨ 0xDFFF < n ∧ n < 0x110000) : (Char.ofNat n).toNat = n :=
    toNat_ofNat_of_isValid hn
  unfold encodeChar
  cases leads_of_lead? hp with
  | two first owed bits admits =>
      obtain ⟨x, rfl, hx, hn⟩ := (finishes_one_iff owed).mp h
      rw [bits] at hn
      have hx := (admits x).mp hx
      have hx' := hx
      unfold IsTail at hx'
      rw [hnat (by omega)]
      dsimp only
      rw [if_neg (by omega), if_pos (by omega), ← eq_byte (b := b) (by omega),
        ← eq_tail hx (by omega)]
      rfl
  | three first owed bits admits =>
      obtain ⟨x, y, rfl, hx, hy, hn⟩ := (finishes_two_iff owed).mp h
      rw [bits] at hn
      obtain ⟨hx, hlow, hhigh⟩ := (admits x).mp hx
      have hx' := hx
      have hy' := hy
      unfold IsTail at hx' hy'
      rw [hnat (by omega)]
      dsimp only
      rw [if_neg (by omega), if_neg (by omega), if_pos (by omega), ← eq_byte (b := b) (by omega),
        ← eq_tail hx (by omega), ← eq_tail hy (by omega)]
      rfl
  | four first owed bits admits =>
      obtain ⟨x, y, z, rfl, hx, hy, hz, hn⟩ := (finishes_three_iff owed).mp h
      rw [bits] at hn
      obtain ⟨hx, hlow, hhigh⟩ := (admits x).mp hx
      have hx' := hx
      have hy' := hy
      have hz' := hz
      unfold IsTail at hx' hy' hz'
      rw [hnat (by omega)]
      dsimp only
      rw [if_neg (by omega), if_neg (by omega), if_neg (by omega), ← eq_byte (b := b) (by omega),
        ← eq_tail hx (by omega), ← eq_tail hy (by omega), ← eq_tail hz (by omega)]
      rfl

/-! ### Texts -/

theorem encode_cons (c : Char) (t : Text) : encode (c :: t) = encodeChar c ++ encode t :=
  List.flatMap_cons

theorem decodeFrom_encode (t : Text) : ∀ position, decodeFrom position none (encode t) = .ok t := by
  induction t with
  | nil => intro position; rfl
  | cons c t ih =>
      intro position
      rw [encode_cons]
      by_cases hc : c.toNat < 0x80
      · have hb := toNat_byte (n := c.toNat) (by omega)
        have hone : encodeChar c = [UInt8.ofNat c.toNat] := by
          unfold encodeChar
          dsimp only
          rw [if_pos hc]
        rw [hone, List.singleton_append, decodeFrom, if_pos (by omega), ih, hb, Char.ofNat_toNat]
        rfl
      · obtain ⟨b, bytes, p, hbytes, hb, hp, hfinishes⟩ :=
          finishes_encodeChar (c := c) (by omega) position (encode t)
        obtain ⟨position', hrest⟩ := decodeFrom_of_finishes hfinishes (position + 1)
        rw [hbytes, decodeFrom, if_neg (by omega), hp]
        dsimp only
        rw [hrest, ih, Char.ofNat_toNat]
        rfl

theorem eq_encode_of_decodeFrom : ∀ {bytes : Bytes} {position : Nat} {t : Text},
    decodeFrom position none bytes = .ok t → bytes = encode t
  | [], _, _, h => by cases h; rfl
  | b :: bytes, _, _, h => by
      rw [decodeFrom] at h
      split at h
      · next hb =>
        obtain ⟨t', hrest, rfl⟩ := cons_map_eq_ok h
        have hnat : (Char.ofNat b.toNat).toNat = b.toNat :=
          toNat_ofNat_of_isValid (.inl (by omega))
        rw [encode_cons, ← eq_encode_of_decodeFrom hrest, encodeChar, hnat, if_pos hb,
          UInt8.ofNat_toNat]
        rfl
      · split at h
        · cases h
        · next p hp =>
          obtain ⟨n, rest, position', t', hfinishes, hrest, rfl⟩ := finishes_of_decodeFrom h
          have hlt := hfinishes.length_lt
          rw [encode_cons, ← eq_encode_of_decodeFrom hrest, encodeChar_of_finishes hp hfinishes]
  termination_by bytes => bytes.length

/-- Bytes are read as a text exactly when they are those that are written for it. -/
theorem decode_eq_ok_iff : decode bytes = .ok t ↔ bytes = encode t := by
  constructor
  · exact eq_encode_of_decodeFrom
  · rintro rfl
    exact decodeFrom_encode t 0

theorem encode_inj {s t : Text} : encode s = encode t ↔ s = t := by
  refine ⟨fun h => ?_, congrArg encode⟩
  have hs : decode (encode t) = .ok s := decode_eq_ok_iff.mpr h.symm
  exact Except.ok.inj (hs.symm.trans (decode_eq_ok_iff.mpr rfl))

end SuiteAudit.Utf8
