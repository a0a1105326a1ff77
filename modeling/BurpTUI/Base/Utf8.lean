import Mathlib.Data.List.Basic

/-! Texts of bytes that are the UTF-8 encoding of some characters, and where they may be cut. -/

namespace Utf8

/-- The UTF-8 encoding of some characters. -/
def Valid (s : List UInt8) : Prop := ∃ cs : List Char, s = cs.flatMap String.utf8EncodeChar

/-- A byte that is not the first one of a character. -/
def IsCont (b : UInt8) : Prop := 128 ≤ b.toNat ∧ b.toNat < 192

instance (b : UInt8) : Decidable (IsCont b) := inferInstanceAs (Decidable (_ ∧ _))

/-- The bytes of a character by its first one. -/
def size (b : UInt8) : ℕ :=
  if b.toNat < 128 then 1 else if b.toNat < 224 then 2 else if b.toNat < 240 then 3 else 4

theorem toNat_ofNat {n : ℕ} (h : n < 256) : (UInt8.ofNat n).toNat = n := by
  rw [UInt8.toNat_ofNat', Nat.mod_eq_of_lt h]

theorem isCont_low (n : ℕ) : IsCont (UInt8.ofNat (n % 0x40 + 0x80)) := by
  rw [IsCont, toNat_ofNat (by omega)]
  omega

/-- The first byte says how many follow, and only they are continuation bytes. -/
theorem encode_spec (c : Char) : ∃ b t, String.utf8EncodeChar c = b :: t ∧ ¬ IsCont b ∧
    (∀ x ∈ t, IsCont x) ∧ t.length + 1 = size b := by
  unfold String.utf8EncodeChar
  dsimp only
  split
  · refine ⟨_, _, rfl, ?_, by simp, ?_⟩
    · rw [IsCont, toNat_ofNat (by omega)]
      omega
    · rw [size, toNat_ofNat (by omega), if_pos (by omega)]
      rfl
  · split
    · refine ⟨_, _, rfl, ?_, ?_, ?_⟩
      · rw [IsCont, toNat_ofNat (by omega)]
        omega
      · simp only [List.mem_singleton, forall_eq]
        exact isCont_low _
      · rw [size, toNat_ofNat (by omega), if_neg (by omega), if_pos (by omega)]
        rfl
    · split
      · refine ⟨_, _, rfl, ?_, ?_, ?_⟩
        · rw [IsCont, toNat_ofNat (by omega)]
          omega
        · simp only [List.forall_mem_cons]
          exact ⟨isCont_low _, isCont_low _, by simp⟩
        · rw [size, toNat_ofNat (by omega), if_neg (by omega), if_neg (by omega), if_pos (by omega)]
          rfl
      · refine ⟨_, _, rfl, ?_, ?_, ?_⟩
        · rw [IsCont, toNat_ofNat (by omega)]
          omega
        · simp only [List.forall_mem_cons]
          exact ⟨isCont_low _, isCont_low _, isCont_low _, by simp⟩
        · rw [size, toNat_ofNat (by omega), if_neg (by omega), if_neg (by omega), if_neg (by omega)]
          rfl

theorem toNat_char_ofNat {n : ℕ} (h : n < 128) : (Char.ofNat n).toNat = n := by
  rw [Char.ofNat, dif_pos (Or.inl (by omega))]
  rfl

theorem encode_ascii {c : Char} (h : c.toNat < 128) :
    String.utf8EncodeChar c = [UInt8.ofNat c.toNat] := by
  unfold String.utf8EncodeChar
  dsimp only
  exact if_pos (Nat.le_of_lt_succ h)

/-- An ASCII byte is a character. -/
theorem exists_encode {b : UInt8} (h : b.toNat < 128) : ∃ c, String.utf8EncodeChar c = [b] := by
  have hval := toNat_char_ofNat h
  refine ⟨Char.ofNat b.toNat, ?_⟩
  rw [encode_ascii (by omega), hval, UInt8.ofNat_toNat]

variable {l r s t v : List UInt8} {b : UInt8} {c : Char}

theorem Valid.nil : Valid [] := ⟨[], rfl⟩

theorem Valid.encode (c : Char) : Valid (String.utf8EncodeChar c) := ⟨[c], by simp⟩

theorem Valid.append (hs : Valid s) (ht : Valid t) : Valid (s ++ t) := by
  obtain ⟨cs, rfl⟩ := hs
  obtain ⟨ds, rfl⟩ := ht
  exact ⟨cs ++ ds, by rw [List.flatMap_append]⟩

/-- The induction over the characters of a text. -/
theorem Valid.induction {P : List UInt8 → Prop} (hnil : P [])
    (hchar : ∀ c s, Valid s → P s → P (String.utf8EncodeChar c ++ s)) (h : Valid s) : P s := by
  obtain ⟨cs, rfl⟩ := h
  induction cs with
  | nil => exact hnil
  | cons c cs ih =>
    rw [List.flatMap_cons]
    exact hchar c _ ⟨cs, rfl⟩ ih

/-- No text begins inside a character. -/
theorem Valid.head (h : Valid s) : ∀ b ∈ s.head?, ¬ IsCont b := by
  refine h.induction (P := fun s => ∀ b ∈ s.head?, ¬ IsCont b) (by simp) ?_
  intro c s _ _ b hb
  obtain ⟨b', t, hc, hfirst, -, -⟩ := encode_spec c
  rw [hc, List.cons_append, List.head?_cons] at hb
  obtain rfl := Option.some.inj hb
  exact hfirst

/-- The first character can be taken away. -/
theorem Valid.of_encode_append (h : Valid (String.utf8EncodeChar c ++ s)) : Valid s := by
  obtain ⟨cs, hcs⟩ := h
  obtain ⟨b, t, hc, -, -, hlen⟩ := encode_spec c
  cases cs with
  | nil =>
    rw [hc] at hcs
    cases hcs
  | cons d cs =>
    obtain ⟨b', t', hd, -, -, hlen'⟩ := encode_spec d
    rw [List.flatMap_cons, hc, hd, List.cons_append, List.cons_append, List.cons.injEq] at hcs
    obtain ⟨rfl, htail⟩ := hcs
    exact ⟨cs, (List.append_inj htail (by omega)).2⟩

theorem Valid.of_append (hl : Valid l) : Valid (l ++ r) → Valid r := by
  refine hl.induction (P := fun l => Valid (l ++ r) → Valid r) id ?_
  intro c s _ ih h
  rw [List.append_assoc] at h
  exact ih h.of_encode_append

/-- A place where a text may be cut: behind it no continuation byte follows. -/
def Boundary (r : List UInt8) : Prop := ∀ b ∈ r.head?, ¬ IsCont b

/-- A cut inside a character leaves a continuation byte behind it. -/
theorem not_boundary_of_inside {a x : List UInt8} (hc : String.utf8EncodeChar c = l ++ a) (hl : l ≠ [])
    (ha : a ≠ []) : ¬ Boundary (a ++ x) := by
  obtain ⟨b, t, hbt, -, hcont, -⟩ := encode_spec c
  obtain ⟨y, l, rfl⟩ := List.exists_cons_of_ne_nil hl
  obtain ⟨z, a, rfl⟩ := List.exists_cons_of_ne_nil ha
  rw [hbt, List.cons_append, List.cons.injEq] at hc
  intro hboundary
  apply hboundary z rfl
  apply hcont
  rw [hc.2]
  simp

theorem Valid.cut (h : Valid (l ++ r)) (hr : Boundary r) : Valid l ∧ Valid r := by
  obtain ⟨s, hs⟩ : ∃ s, s = l ++ r := ⟨_, rfl⟩
  rw [← hs] at h
  refine h.induction (P := fun s => ∀ l, s = l ++ r → Valid l ∧ Valid r) ?_ ?_ l hs
  · intro l hnil
    obtain ⟨rfl, rfl⟩ := List.append_eq_nil_iff.mp hnil.symm
    exact ⟨.nil, .nil⟩
  · intro c rest hrest ih l heq
    rcases List.append_eq_append_iff.mp heq with ⟨a, rfl, ha⟩ | ⟨a, hc, rfl⟩
    · obtain ⟨hl, hr⟩ := ih a ha
      exact ⟨(Valid.encode c).append hl, hr⟩
    · by_cases hl : l = []
      · subst hl
        exact ⟨.nil, heq ▸ (Valid.encode c).append hrest⟩
      · by_cases ha : a = []
        · subst ha
          rw [List.append_nil] at hc
          exact ⟨hc ▸ .encode c, hrest⟩
        · exact absurd hr (not_boundary_of_inside hc hl ha)

theorem Valid.boundary (h : Valid s) : Boundary s := h.head

theorem boundary_ascii (h : b.toNat < 128) : Boundary (b :: r) := by
  intro x hx hcont
  obtain rfl := Option.some.inj hx
  exact absurd hcont.1 (by omega)

/-- An ASCII byte can be taken out of a text or put into it between two characters. -/
theorem valid_around_ascii (h : b.toNat < 128) : Valid (l ++ b :: r) ↔ Valid l ∧ Valid r := by
  obtain ⟨c, hc⟩ := exists_encode h
  constructor
  · intro hvalid
    obtain ⟨hl, hr⟩ := hvalid.cut (boundary_ascii h)
    have hchar : Valid (String.utf8EncodeChar c ++ r) := by rwa [hc]
    exact ⟨hl, hchar.of_encode_append⟩
  · rintro ⟨hl, hr⟩
    have hchar : Valid (String.utf8EncodeChar c ++ r) := (Valid.encode c).append hr
    rw [hc] at hchar
    exact hl.append hchar

/-- A text may be put into another where that may be cut, and nowhere else. -/
theorem valid_insert_iff (h : Valid (l ++ r)) (hv : Valid v) (hne : v ≠ []) :
    Valid (l ++ v ++ r) ↔ Boundary r := by
  constructor
  · intro hins
    rw [List.append_assoc] at hins
    have hstart : Boundary (v ++ r) := by
      obtain ⟨x, v, rfl⟩ := List.exists_cons_of_ne_nil hne
      exact hv.head
    exact (hv.of_append (hins.cut hstart).2).boundary
  · intro hboundary
    obtain ⟨hl, hr⟩ := h.cut hboundary
    exact (hl.append hv).append hr

/-- Each byte belongs to a character, with texts before and behind that. -/
theorem Valid.around (h : Valid (l ++ b :: r)) : ∃ c l' p q r', Valid l' ∧ Valid r' ∧ l = l' ++ p ∧
    String.utf8EncodeChar c = p ++ b :: q ∧ r = q ++ r' := by
  obtain ⟨s, hs⟩ : ∃ s, s = l ++ b :: r := ⟨_, rfl⟩
  rw [← hs] at h
  refine h.induction (P := fun s => ∀ l, s = l ++ b :: r → ∃ c l' p q r', Valid l' ∧ Valid r' ∧
    l = l' ++ p ∧ String.utf8EncodeChar c = p ++ b :: q ∧ r = q ++ r') ?_ ?_ l hs
  · intro l hnil
    simp at hnil
  · intro c rest hrest ih l heq
    rcases List.append_eq_append_iff.mp heq with ⟨a, rfl, ha⟩ | ⟨a, hc, ha⟩
    · obtain ⟨d, l', p, q, r', hl', hr', rfl, hd, hq⟩ := ih a ha
      exact ⟨d, String.utf8EncodeChar c ++ l', p, q, r', (Valid.encode c).append hl', hr', by simp, hd, hq⟩
    · cases a with
      | nil =>
        -- the character ends before the byte
        rw [List.append_nil] at hc
        obtain ⟨d, l', p, q, r', hl', hr', hnil, hd, hq⟩ := ih [] ha.symm
        obtain ⟨rfl, rfl⟩ := List.append_eq_nil_iff.mp hnil.symm
        exact ⟨d, l, [], q, r', hc ▸ .encode c, hr', by simp, hd, hq⟩
      | cons x q =>
        obtain ⟨rfl, rfl⟩ := List.cons.inj ha
        exact ⟨c, [], l, q, rest, .nil, hrest, rfl, hc, rfl⟩

theorem two_le_size (h : ¬ b.toNat < 128) : 2 ≤ size b := by
  unfold size
  rw [if_neg h]
  split
  · omega
  · split <;> omega

/-- A character of several bytes is none without one of them. -/
theorem not_valid_damaged {p q : List UInt8} (hc : String.utf8EncodeChar c = p ++ b :: q)
    (hb : ¬ b.toNat < 128) (hr : Valid r) : ¬ Valid (p ++ q ++ r) := by
  intro hvalid
  obtain ⟨x, t, hx, hfirst, hcont, hlen⟩ := encode_spec c
  rw [hx] at hc
  cases p with
  | nil =>
    obtain ⟨rfl, rfl⟩ := List.cons.inj hc
    have htwo := two_le_size hb
    rw [List.nil_append] at hvalid
    cases t with
    | nil =>
      rw [List.length_nil] at hlen
      omega
    | cons y t => exact hvalid.head y rfl (hcont y List.mem_cons_self)
  | cons x' p =>
    rw [List.cons_append] at hc
    obtain ⟨rfl, rfl⟩ := List.cons.inj hc
    obtain ⟨cs, hcs⟩ := hvalid
    cases cs with
    | nil => cases hcs
    | cons d cs =>
      obtain ⟨x', t, hd, -, hcont', hlen'⟩ := encode_spec d
      rw [List.flatMap_cons, hd, List.cons_append, List.cons_append, List.cons_append,
        List.cons.injEq] at hcs
      obtain ⟨rfl, htail⟩ := hcs
      -- the first character takes a byte of what follows
      have hlong : (p ++ q).length < t.length := by
        simp only [List.length_append, List.length_cons] at hlen ⊢
        omega
      rcases List.append_eq_append_iff.mp htail with ⟨a, rfl, rfl⟩ | ⟨a, ht, -⟩
      · cases a with
        | nil =>
          rw [List.append_nil] at hlong
          exact Nat.lt_irrefl _ hlong
        | cons z a => exact hr.head z rfl (hcont' z (by simp))
      · rw [ht, List.length_append] at hlong
        omega

/-- Taking out one byte leaves a text if and only if the byte is a character. -/
theorem valid_erase_iff (h : Valid (l ++ b :: r)) : Valid (l ++ r) ↔ b.toNat < 128 := by
  constructor
  · intro herased
    obtain ⟨c, l', p, q, r', hl', hr', rfl, hc, rfl⟩ := h.around
    by_contra hb
    rw [List.append_assoc] at herased
    have hdamaged := hl'.of_append herased
    rw [← List.append_assoc] at hdamaged
    exact not_valid_damaged hc hb hr' hdamaged
  · intro hb
    obtain ⟨hl, hr⟩ := (valid_around_ascii hb).mp h
    exact hl.append hr

theorem valid_ascii_append (hs : ∀ b ∈ s, b.toNat < 128) : Valid (s ++ r) ↔ Valid r := by
  induction s with
  | nil => rw [List.nil_append]
  | cons b s ih =>
    rw [List.forall_mem_cons] at hs
    have hcut := valid_around_ascii (l := []) (r := s ++ r) hs.1
    rw [List.nil_append] at hcut
    rw [List.cons_append, hcut, ih hs.2]
    exact and_iff_right .nil

theorem valid_of_ascii (hs : ∀ b ∈ s, b.toNat < 128) : Valid s := by
  have h := (valid_ascii_append (r := []) hs).mpr .nil
  rwa [List.append_nil] at h

theorem valid_append_ascii (hs : ∀ b ∈ s, b.toNat < 128) : Valid (l ++ s) ↔ Valid l := by
  cases s with
  | nil => rw [List.append_nil]
  | cons b s =>
    rw [List.forall_mem_cons] at hs
    rw [valid_around_ascii hs.1]
    exact and_iff_left (valid_of_ascii hs.2)

/-- Texts joined by ASCII are a text if and only if each of them is. -/
theorem valid_intercalate {sep : List UInt8} (hne : sep ≠ []) (hsep : ∀ b ∈ sep, b.toNat < 128)
    (ls : List (List UInt8)) : Valid (sep.intercalate ls) ↔ ∀ l ∈ ls, Valid l := by
  obtain ⟨b, sep, rfl⟩ := List.exists_cons_of_ne_nil hne
  rw [List.forall_mem_cons] at hsep
  cases ls with
  | nil => simp [Valid.nil]
  | cons l ls =>
    induction ls generalizing l with
    | nil => simp
    | cons l' ls ih =>
      rw [List.intercalate_cons_cons, List.append_assoc, List.cons_append, valid_around_ascii hsep.1,
        valid_ascii_append hsep.2, ih l', List.forall_mem_cons (l := l' :: ls)]

/-- An ASCII byte is the only byte of its character. -/
theorem encode_of_mem_ascii (hb : b.toNat < 128) (hmem : b ∈ String.utf8EncodeChar c) :
    String.utf8EncodeChar c = [b] := by
  obtain ⟨x, t, hc, -, hcont, hlen⟩ := encode_spec c
  rw [hc, List.mem_cons] at hmem
  rcases hmem with rfl | hmem
  · rw [size, if_pos hb] at hlen
    rw [hc, List.length_eq_zero_iff.mp (by omega : t.length = 0)]
  · exact absurd (hcont b hmem).1 (by omega)

/-- A text without the bytes of one ASCII character. -/
theorem Valid.filter_ne (hb : b.toNat < 128) (h : Valid s) : Valid (s.filter (· ≠ b)) := by
  refine h.induction (P := fun s => Valid (s.filter (· ≠ b))) .nil ?_
  intro c s _ ih
  rw [List.filter_append]
  apply Valid.append _ ih
  by_cases hmem : b ∈ String.utf8EncodeChar c
  · rw [encode_of_mem_ascii hb hmem]
    simpa using Valid.nil
  · rw [List.filter_eq_self.mpr]
    · exact .encode c
    · intro x hx
      simp only [decide_eq_true_eq]
      rintro rfl
      exact hmem hx

abbrev encode (cs : List Char) : List UInt8 := cs.flatMap String.utf8EncodeChar

/-- A text has one reading. -/
theorem encode_injective {cs ds : List Char} (h : encode cs = encode ds) : cs = ds := by
  apply String.ofList_injective
  rw [← String.toByteArray_inj, String.toByteArray_ofList, String.toByteArray_ofList, List.utf8Encode,
    List.utf8Encode]
  exact congrArg List.toByteArray h

/-- The bytes of any other character are not ASCII. -/
theorem encode_not_ascii (h : 128 ≤ c.toNat) : ∀ b ∈ String.utf8EncodeChar c, 128 ≤ b.toNat := by
  intro b hb
  by_contra hlt
  have hone := congrArg List.length (encode_of_mem_ascii (Nat.lt_of_not_le hlt) hb)
  rw [String.length_utf8EncodeChar, List.length_singleton, Char.utf8Size_eq_one_iff,
    UInt32.le_iff_toNat_le] at hone
  exact absurd (Nat.lt_of_lt_of_le h hone) (Nat.lt_irrefl 127)

end Utf8
