import HeidiKernel.GovRule.Grammar
import HeidiKernel.GovRule.Parse

namespace HeidiKernel.Gov

open HeidiKernel.Data

theorem parseKey_of_quoted {s key rest : Bytes} (h : Quoted s key rest) :
    parseKey s = .ok (some key, rest) :=
  parseQuoted_scans.reads h

theorem Quoted.length_lt {s key rest : Bytes} (h : Quoted s key rest) :
    rest.length < s.length := by
  obtain ⟨blank, _, _, rfl⟩ := h
  simp only [List.length_append, List.length_cons]
  omega

theorem Quoted.ne_nil {s key rest : Bytes} (h : Quoted s key rest) :
    s ≠ [] :=
  List.ne_nil_of_length_pos (Nat.zero_lt_of_lt h.length_lt)

theorem Colon.length_lt {s rest : Bytes} (h : Colon s rest) :
    rest.length < s.length := by
  obtain ⟨blank, _, rfl⟩ := h
  simp only [List.length_append, List.length_cons]
  omega

theorem endMember_eq (s : Bytes) : endMember s = .ok (memberEnd s) := by
  unfold endMember memberEnd
  simp only [skipWhitespace_eq, ok_bind]
  cases trimStart s with
  | nil => rfl
  | cons c s =>
      by_cases hc : c = comma <;> simp [hc, trim_eq]

theorem memberEnd_length_le (s : Bytes) :
    (memberEnd s).length ≤ s.length := by
  have htrim := length_trimStart_le s
  unfold memberEnd
  cases hs : trimStart s with
  | nil => exact Nat.zero_le _
  | cons c tail =>
      rw [hs, List.length_cons] at htrim
      change (if c = comma then trimmed tail else c :: tail).length ≤ _
      have htail := length_trimmed_le tail
      by_cases hc : c = comma
      · rw [if_pos hc]
        omega
      · rw [if_neg hc, List.length_cons]
        exact htrim

/-- What a round can find: the end, no key, no colon, or a value. -/
theorem member_cases (s : Bytes) :
    s = [] ∨ (s ≠ [] ∧ ∀ key rest, ¬Quoted s key rest) ∨
      (∃ key afterKey, Quoted s key afterKey ∧
        ∀ rest, ¬Colon afterKey rest) ∨
      ∃ key afterKey afterColon, Quoted s key afterKey ∧
        Colon afterKey afterColon := by
  by_cases hnil : s = []
  · exact .inl hnil
  right
  by_cases hkey : ∃ key afterKey, Quoted s key afterKey
  · right
    obtain ⟨key, afterKey, hkey⟩ := hkey
    by_cases hcolon : ∃ afterColon, Colon afterKey afterColon
    · obtain ⟨afterColon, hcolon⟩ := hcolon
      exact .inr ⟨key, afterKey, afterColon, hkey, hcolon⟩
    · push Not at hcolon
      exact .inl ⟨key, afterKey, hkey, hcolon⟩
  · push Not at hkey
    exact .inl ⟨hnil, hkey⟩

/-- What the values of an object spell and what storing them does. -/
structure FieldSpec {M σ : Type}
    (field : Bytes → Bytes → σ → Except Exit (Cursor σ))
    (Item : Bytes → Bytes → M → Bytes → Prop)
    (Overruns : Bytes → Bytes → Prop) (apply : σ → M → σ) : Prop where
  accepts : ∀ {key s value c}, field key s value = .ok c ↔
    ∃ m, Item key s m c.view ∧ c.value = apply value m
  faults : ∀ {key s} (value : σ),
    (∃ f, field key s value = .error (.fault f)) ↔ Overruns key s
  nacks : ∀ {key s value code detail},
    field key s value = .error (.nack code detail) → code ≠ .ack
  shrinks : ∀ {key s m rest}, Item key s m rest → rest.length ≤ s.length

namespace FieldSpec

variable {M σ : Type} {field : Bytes → Bytes → σ → Except Exit (Cursor σ)}
  {Item : Bytes → Bytes → M → Bytes → Prop}
  {Overruns : Bytes → Bytes → Prop} {apply : σ → M → σ}
  {keyDetail colonDetail : Bytes}

theorem memberStep_of_key {c : Cursor σ} {key afterKey afterColon : Bytes}
    (hkey : Quoted c.view key afterKey) (hcolon : Colon afterKey afterColon) :
    memberStep keyDetail colonDetail field c = do
      let next ← field key afterColon c.value
      return some ⟨memberEnd next.view, next.value⟩ := by
  have hne : c.view.isEmpty = false := by
    obtain ⟨blank, _, _, hview⟩ := hkey
    simp [hview]
  simp [memberStep, hne, parseKey_of_quoted hkey,
    consumeColon_of_colon hcolon, endMember_eq]

theorem memberStep_of_not_key {c : Cursor σ} (hne : c.view ≠ [])
    (h : ∀ key rest, ¬Quoted c.view key rest) :
    memberStep keyDetail colonDetail field c =
      .error (.nack .nackParseError keyDetail) := by
  obtain ⟨left, hparse⟩ : ∃ left, parseKey c.view = .ok (none, left) :=
    parseQuoted_scans.rejects h
  simp [memberStep, hne, hparse]

theorem memberStep_of_not_colon {c : Cursor σ} {key afterKey : Bytes}
    (hkey : Quoted c.view key afterKey) (h : ∀ rest, ¬Colon afterKey rest) :
    memberStep keyDetail colonDetail field c =
      .error (.nack .nackParseError colonDetail) := by
  have hne : c.view ≠ [] := by
    obtain ⟨blank, _, _, hview⟩ := hkey
    simp [hview]
  rcases consumeColon_cases afterKey with ⟨rest, hcolon, _⟩ | ⟨left, hcolon⟩
  · exact absurd hcolon (h rest)
  · simp [memberStep, hne, parseKey_of_quoted hkey, hcolon]

/-- A round ends the loop, finds no key or no colon, or gets to a value. -/
theorem memberStep_cases (keyDetail colonDetail : Bytes)
    (field : Bytes → Bytes → σ → Except Exit (Cursor σ)) (c : Cursor σ) :
    c.view = [] ∧
        memberStep keyDetail colonDetail field c = .ok none ∨
      (∃ detail, memberStep keyDetail colonDetail field c =
        .error (.nack .nackParseError detail)) ∨
      ∃ key afterKey afterColon, Quoted c.view key afterKey ∧
        Colon afterKey afterColon := by
  rcases member_cases c.view with
    hnil | ⟨hne, hkey⟩ | ⟨key, afterKey, hkey, hcolon⟩ | hvalue
  · exact .inl ⟨hnil, by simp [memberStep, hnil]⟩
  · exact .inr (.inl ⟨keyDetail, memberStep_of_not_key hne hkey⟩)
  · exact .inr (.inl ⟨colonDetail, memberStep_of_not_colon hkey hcolon⟩)
  · exact .inr (.inr hvalue)

theorem memberStep_ends_iff {c : Cursor σ} :
    memberStep keyDetail colonDetail field c = .ok none ↔ c.view = [] := by
  constructor
  · intro hstep
    rcases memberStep_cases keyDetail colonDetail field c with
      ⟨hview, _⟩ | ⟨detail, hnack⟩ | ⟨key, afterKey, afterColon, hkey, hcolon⟩
    · exact hview
    · rw [hstep] at hnack
      contradiction
    · rw [memberStep_of_key hkey hcolon, bind_eq_ok] at hstep
      obtain ⟨next, _, hnext⟩ := hstep
      simp at hnext
  · intro hview
    simp [memberStep, hview]

variable (h : FieldSpec field Item Overruns apply)

include h

theorem memberStep_moves_iff {c c' : Cursor σ} :
    memberStep keyDetail colonDetail field c = .ok (some c') ↔
      ∃ m key afterKey afterColon afterValue, Quoted c.view key afterKey ∧
        Colon afterKey afterColon ∧ Item key afterColon m afterValue ∧
        c' = ⟨memberEnd afterValue, apply c.value m⟩ := by
  constructor
  · intro hstep
    rcases memberStep_cases keyDetail colonDetail field c with
      ⟨_, hend⟩ | ⟨detail, hnack⟩ | ⟨key, afterKey, afterColon, hkey, hcolon⟩
    · rw [hstep] at hend
      simp at hend
    · rw [hstep] at hnack
      contradiction
    · rw [memberStep_of_key hkey hcolon, bind_eq_ok] at hstep
      obtain ⟨next, hfield, hnext⟩ := hstep
      obtain ⟨m, hitem, hvalue⟩ := h.accepts.mp hfield
      refine ⟨m, key, afterKey, afterColon, next.view, hkey, hcolon,
        hitem, ?_⟩
      rw [← hvalue]
      simpa using hnext.symm
  · intro hmember
    obtain ⟨m, key, afterKey, afterColon, afterValue, hkey, hcolon, hitem,
      rfl⟩ := hmember
    have hfield : field key afterColon c.value =
        .ok ⟨afterValue, apply c.value m⟩ := h.accepts.mpr ⟨m, hitem, rfl⟩
    rw [memberStep_of_key hkey hcolon, hfield]
    rfl

theorem memberStep_faults_iff {c : Cursor σ} :
    (∃ f, memberStep keyDetail colonDetail field c = .error (.fault f)) ↔
      ∃ key afterKey afterColon, Quoted c.view key afterKey ∧
        Colon afterKey afterColon ∧ Overruns key afterColon := by
  constructor
  · intro hfault
    obtain ⟨f, hfault⟩ := hfault
    rcases memberStep_cases keyDetail colonDetail field c with
      ⟨_, hend⟩ | ⟨detail, hnack⟩ | ⟨key, afterKey, afterColon, hkey, hcolon⟩
    · rw [hfault] at hend
      contradiction
    · rw [hfault] at hnack
      simp at hnack
    · rw [memberStep_of_key hkey hcolon, bind_eq_error] at hfault
      have hfield := hfault.resolve_right (by simp)
      exact ⟨key, afterKey, afterColon, hkey, hcolon,
        (h.faults _).mp ⟨f, hfield⟩⟩
  · intro hoverrun
    obtain ⟨key, afterKey, afterColon, hkey, hcolon, hoverruns⟩ := hoverrun
    obtain ⟨f, hfield⟩ := (h.faults c.value).mpr hoverruns
    exact ⟨f, by rw [memberStep_of_key hkey hcolon, hfield]; rfl⟩

theorem memberStep_nacks {c : Cursor σ} {code : AckCode} {detail : Bytes}
    (hstep : memberStep keyDetail colonDetail field c =
      .error (.nack code detail)) : code ≠ .ack := by
  rcases memberStep_cases keyDetail colonDetail field c with
    ⟨_, hend⟩ | ⟨detail, hnack⟩ | ⟨key, afterKey, afterColon, hkey, hcolon⟩
  · rw [hstep] at hend
    contradiction
  · rw [hstep] at hnack
    cases hnack
    decide
  · rw [memberStep_of_key hkey hcolon, bind_eq_error] at hstep
    exact h.nacks (hstep.resolve_right (by simp))

/-! The whole loop. -/

theorem memberStep_size (c c' : Cursor σ)
    (hstep : (memberStep keyDetail colonDetail field c).mapError
      (·, c.value) = .ok (some c')) :
    c'.view.length < c.view.length := by
  obtain ⟨m, key, afterKey, afterColon, afterValue, hkey, hcolon, hitem,
    rfl⟩ := h.memberStep_moves_iff.mp (mapError_eq_ok.mp hstep)
  have hend := memberEnd_length_le afterValue
  have hvalue := h.shrinks hitem
  have := hcolon.length_lt
  have := hkey.length_lt
  simp only
  omega

theorem reaches_iff {c t : Cursor σ} :
    Reaches (fun c => (memberStep keyDetail colonDetail field c).mapError
        (·, c.value)) c t ↔
      ∃ ms, Passes Item c.view ms t.view ∧
        t.value = ms.foldl apply c.value := by
  constructor
  · intro hreach
    induction hreach using Relation.ReflTransGen.head_induction_on with
    | refl => exact ⟨[], .here, rfl⟩
    | head hstep _ ih =>
        obtain ⟨m, key, afterKey, afterColon, afterValue, hkey, hcolon,
          hitem, rfl⟩ := h.memberStep_moves_iff.mp (mapError_eq_ok.mp hstep)
        obtain ⟨ms, hpasses, hvalue⟩ := ih
        exact ⟨m :: ms, .next hkey hcolon hitem hpasses, hvalue⟩
  · intro hpasses
    obtain ⟨ms, hpasses, hvalue⟩ := hpasses
    obtain ⟨view, value⟩ := c
    obtain ⟨view', value'⟩ := t
    simp only at hpasses hvalue
    induction hpasses generalizing value with
    | here =>
        rw [hvalue]
        exact .refl
    | @next s afterKey afterColon afterValue rest key m ms hkey hcolon hitem
        _ ih =>
        have hstep : memberStep keyDetail colonDetail field ⟨s, value⟩ =
            .ok (some ⟨memberEnd afterValue, apply value m⟩) :=
          h.memberStep_moves_iff.mpr ⟨m, key, afterKey, afterColon,
            afterValue, hkey, hcolon, hitem, rfl⟩
        exact .head (mapError_eq_ok.mpr hstep) (ih _ hvalue)

theorem members_eq_ok_iff {c c' : Cursor σ} :
    members keyDetail colonDetail field c = .ok c' ↔
      ∃ ms, Passes Item c.view ms [] ∧ c' = ⟨[], ms.foldl apply c.value⟩ := by
  unfold members
  rw [loop_eq_ok_iff h.memberStep_size (Nat.lt_succ_self _), h.reaches_iff,
    mapError_eq_ok, memberStep_ends_iff]
  obtain ⟨view, value⟩ := c'
  constructor
  · intro hrun
    obtain ⟨⟨ms, hpasses, hvalue⟩, hview⟩ := hrun
    simp only at hpasses hvalue hview
    rw [hview] at hpasses
    exact ⟨ms, hpasses, by rw [hview, hvalue]⟩
  · intro hrun
    obtain ⟨ms, hpasses, heq⟩ := hrun
    cases heq
    exact ⟨⟨ms, hpasses, rfl⟩, rfl⟩

omit h in
theorem overrun_iff {s : Bytes} :
    Overrun Item Overruns s ↔
      ∃ ms left, Passes Item s ms left ∧
        ∃ key afterKey afterColon, Quoted left key afterKey ∧
          Colon afterKey afterColon ∧ Overruns key afterColon := by
  constructor
  · intro hoverrun
    induction hoverrun with
    | here hkey hcolon hoverruns =>
        exact ⟨[], _, .here, _, _, _, hkey, hcolon, hoverruns⟩
    | next hkey hcolon hitem _ ih =>
        obtain ⟨ms, left, hpasses, hend⟩ := ih
        exact ⟨_ :: ms, left, .next hkey hcolon hitem hpasses, hend⟩
  · intro hreached
    obtain ⟨ms, left, hpasses, key, afterKey, afterColon, hkey, hcolon,
      hoverruns⟩ := hreached
    induction hpasses with
    | here => exact .here hkey hcolon hoverruns
    | next hkey' hcolon' hitem _ ih =>
        exact .next hkey' hcolon' hitem (ih hkey)

theorem members_faults_iff {c : Cursor σ} :
    (∃ f value, members keyDetail colonDetail field c =
        .error (.fault f, value)) ↔
      Overrun Item Overruns c.view := by
  unfold members
  simp only [loop_eq_error_iff h.memberStep_size (Nat.lt_succ_self _),
    h.reaches_iff, mapError_eq_error, overrun_iff]
  constructor
  · intro hrun
    obtain ⟨f, value, t, ⟨ms, hpasses, _⟩, e, hfault, heq⟩ := hrun
    obtain ⟨rfl, _⟩ := Prod.mk.inj heq
    exact ⟨ms, t.view, hpasses, h.memberStep_faults_iff.mp ⟨f, hfault⟩⟩
  · intro hrun
    obtain ⟨ms, left, hpasses, hend⟩ := hrun
    obtain ⟨f, hfault⟩ := (h.memberStep_faults_iff
      (c := ⟨left, ms.foldl apply c.value⟩)).mpr hend
    exact ⟨f, ms.foldl apply c.value, ⟨left, ms.foldl apply c.value⟩,
      ⟨ms, hpasses, rfl⟩, .fault f, hfault, rfl⟩

theorem members_nacks {c : Cursor σ} {code : AckCode} {detail : Bytes}
    {value : σ}
    (hrun : members keyDetail colonDetail field c =
      .error (.nack code detail, value)) : code ≠ .ack := by
  unfold members at hrun
  rw [loop_eq_error_iff h.memberStep_size (Nat.lt_succ_self _)] at hrun
  obtain ⟨t, _, hstep⟩ := hrun
  obtain ⟨e, hnack, heq⟩ := mapError_eq_error.mp hstep
  obtain ⟨rfl, _⟩ := Prod.mk.inj heq
  exact h.memberStep_nacks hnack

end FieldSpec

end HeidiKernel.Gov
