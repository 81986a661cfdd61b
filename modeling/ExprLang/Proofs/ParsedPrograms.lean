import ExprLang.Proofs.Locality
import ExprLang.Proofs.WholeTrees

/-!
What the parser makes of a text: a well-formed program, a problem, or the fault of a number with
more digits than are read.
-/

namespace ExprLang

open TokenStream

namespace Parser

variable {α β : Type} {kept : TokenStream → Prop} {bad : Fault → Prop}

/-- Runs that keep what holds of the stream, or end in faults of some sort. -/
def Keeps (kept : TokenStream → Prop) (bad : Fault → Prop) (p : Parser α) : Prop :=
  ∀ s, kept s →
    match p.run s with
    | (.ok _, s') => kept s'
    | (.error fault, _) => bad fault

theorem keeps_pure (a : α) : (pure a : Parser α).Keeps kept bad :=
  fun _ hs => hs

theorem keeps_bind {p : Parser α} {f : α → Parser β} (hp : p.Keeps kept bad)
    (hf : ∀ a, (f a).Keeps kept bad) : (p >>= f).Keeps kept bad := by
  intro s hs
  have hr := hp s hs
  cases hrun : p.run s with
  | mk first s₁ =>
    rw [hrun] at hr
    cases first with
    | ok a =>
      rw [run_bind_ok hrun]
      exact hf a s₁ hr
    | error fault =>
      rw [run_bind_error hrun]
      exact hr

theorem keeps_drop (ha : advance.Keeps kept bad) {s s₁ : TokenStream} {t : Token} (hs : kept s)
    (hp : s.peek = (.ok t, s₁)) (ht : t.kind ≠ .endOfInput) : kept s₁.drop := by
  -- To advance over such a token is to drop it.
  have hr := ha s hs
  simpa only [advance, TokenStream.advance, hp, if_neg ht] using hr

theorem keeps_repeatWhile {accepts : TokenKind → Bool} {step : α → Token → Parser α}
    (hp : peek.Keeps kept bad) (ha : advance.Keeps kept bad)
    (hs : ∀ a t, (step a t).Keeps kept bad) (a : α) :
    (repeatWhile accepts step a).Keeps kept bad := by
  intro s hk
  change match repeatRun accepts step a s with
    | (.ok _, s') => kept s'
    | (.error fault, _) => bad fault
  fun_induction repeatRun accepts step a s with
  | case1 a s fault s₁ h =>
    have hr := hp s hk
    simpa only [peek, h] using hr
  | case2 a s t s₁ h hc fault s₂ hrun =>
    have ht := of_decide_eq_true (Bool.and_eq_true_iff.mp hc).2
    have hr := hs a t _ (keeps_drop ha hk h ht)
    rwa [hrun] at hr
  | case3 a s t s₁ h hc a' s₂ hrun hlt ih =>
    have ht := of_decide_eq_true (Bool.and_eq_true_iff.mp hc).2
    have hr := hs a t _ (keeps_drop ha hk h ht)
    rw [hrun] at hr
    exact ih hr
  | case4 a s t s₁ h =>
    have hr := hp s hk
    simpa only [peek, h] using hr

theorem keeps_of_made {p : Parser α} (h : Made p) (hp : peek.Keeps kept bad)
    (ha : advance.Keeps kept bad) (hb : ∀ problem, bad (.problem problem)) : p.Keeps kept bad := by
  induction h with
  | pure a => exact keeps_pure a
  | bind _ _ hp hf => exact keeps_bind hp hf
  | fail problem => exact fun _ _ => hb problem
  | peek => exact hp
  | advance => exact ha
  | repeatWhile a _ hs => exact keeps_repeatWhile hp ha hs a

/-- What a look at a token keeps, and dropping that token then, a made parser keeps. -/
theorem keeps_of_peek {p : Parser α} (h : Made p)
    (hok : ∀ {s s' : TokenStream} {t : Token}, kept s → s.peek = (.ok t, s') →
      kept s' ∧ (t.kind ≠ .endOfInput → kept s'.drop))
    (herror : ∀ {s s' : TokenStream} {fault : Fault}, kept s → s.peek = (.error fault, s') →
      bad fault)
    (hb : ∀ problem, bad (.problem problem)) : p.Keeps kept bad := by
  apply keeps_of_made h
  · intro s hs
    split <;> rename_i hp
    · exact (hok hs hp).1
    · exact herror hs hp
  · intro s hs
    cases hp : s.peek with
    | mk result s₁ =>
      simp only [advance, TokenStream.advance, hp]
      cases result with
      | error fault => exact herror hs hp
      | ok t =>
        by_cases ht : t.kind = .endOfInput
        · simpa only [if_pos ht] using (hok hs hp).1
        · simpa only [if_neg ht] using (hok hs hp).2 ht
  · exact hb

end Parser

namespace TokenStream

variable {s s' : TokenStream} {t : Token}

theorem pending_of_peek (h : s.peek = (.ok t, s')) :
    s'.pending = s.pending ∧ s.pending = t :: s'.drop.pending ∧
      s'.source.fault = s.source.fault := by
  obtain ⟨⟨tokens, fault⟩, current⟩ := s
  cases current with
  | some u =>
    obtain ⟨hu, rfl⟩ := Prod.mk.inj h
    obtain rfl := Except.ok.inj hu
    exact ⟨rfl, rfl, rfl⟩
  | none =>
    cases tokens with
    | cons u tokens =>
      obtain ⟨hu, rfl⟩ := Prod.mk.inj h
      obtain rfl := Except.ok.inj hu
      exact ⟨rfl, rfl, rfl⟩
    | nil => cases fault <;> cases (Prod.mk.inj h).1

theorem of_peek_error {fault : Fault} (h : s.peek = (.error fault, s')) :
    s.pending = [] ∧ (s.source.fault = some fault ∨
      s.source.fault = none ∧ fault = .endMissing) := by
  obtain ⟨⟨tokens, final⟩, current⟩ := s
  cases current with
  | some u => cases (Prod.mk.inj h).1
  | none =>
    cases tokens with
    | cons u tokens => cases (Prod.mk.inj h).1
    | nil =>
      cases final with
      | some fault' => exact ⟨rfl, .inl (congrArg some (Except.error.inj (Prod.mk.inj h).1))⟩
      | none => exact ⟨rfl, .inr ⟨rfl, (Except.error.inj (Prod.mk.inj h).1).symm⟩⟩

/-- The source ends in the given fault, or the end of the input is ahead and there is none. -/
structure EndsIn (final : Option Fault) (s : TokenStream) : Prop where
  fault_eq : s.source.fault = final
  ahead_iff : (∃ t ∈ s.pending, t.kind = .endOfInput) ↔ final = none

end TokenStream

namespace Parser

variable {final : Option Fault} {s s' : TokenStream}

theorem endsIn_of_peek {t : Token} (hs : s.EndsIn final) (h : s.peek = (.ok t, s')) :
    s'.EndsIn final := by
  obtain ⟨hp, _, hf⟩ := pending_of_peek h
  exact ⟨hf.trans hs.fault_eq, hp ▸ hs.ahead_iff⟩

theorem eq_final_of_peek {fault : Fault} (hs : s.EndsIn final) (h : s.peek = (.error fault, s')) :
    final = some fault := by
  obtain ⟨hp, hf | ⟨hf, _⟩⟩ := of_peek_error h
  · exact hs.fault_eq.symm.trans hf
  · have hn := hs.ahead_iff.mpr (hs.fault_eq.symm.trans hf)
    simp [hp] at hn

theorem endsIn_drop {t : Token} (hs : s.EndsIn final) (h : s.peek = (.ok t, s'))
    (ht : t.kind ≠ .endOfInput) : s'.drop.EndsIn final := by
  obtain ⟨_, hd, hf⟩ := pending_of_peek h
  have ha := hs.ahead_iff
  simp only [hd, List.mem_cons, exists_eq_or_imp, ht, false_or] at ha
  exact ⟨hf.trans hs.fault_eq, ha⟩

/-- A run that is not stopped by a problem ends in the fault of its source, if that has one. -/
theorem keeps_endsIn {α : Type} {p : Parser α} (h : Made p) :
    p.Keeps (EndsIn final) fun fault => (∃ problem, fault = .problem problem) ∨
      final = some fault := by
  apply keeps_of_peek h
  · exact fun hs hp => ⟨endsIn_of_peek hs hp, endsIn_drop hs hp⟩
  · exact fun hs hp => .inr (eq_final_of_peek hs hp)
  · exact fun problem => .inl ⟨problem, rfl⟩

theorem of_run_bind {α β : Type} {p : Parser α} {f : α → Parser β} {b : β}
    (h : (p >>= f).run s = (.ok b, s')) :
    ∃ a s₁, p.run s = (.ok a, s₁) ∧ (f a).run s₁ = (.ok b, s') := by
  cases hp : p.run s with
  | mk first s₁ =>
    cases first with
    | ok a => exact ⟨a, s₁, rfl, (run_bind_ok hp).symm.trans h⟩
    | error fault => cases (Prod.mk.inj ((run_bind_error hp).symm.trans h)).1

theorem of_take {accepts : TokenKind → Bool} {problem : Token → Problem} {t : Token}
    (h : (take accepts problem).run s = (.ok t, s')) : ∃ u ∈ s.pending, accepts u.kind = true := by
  obtain ⟨u, s₁, hp, hr⟩ := of_run_bind h
  obtain ⟨_, hu, _⟩ := pending_of_peek hp
  split at hr
  · rename_i ha
    exact ⟨u, by simp [hu], ha⟩
  · cases (Prod.mk.inj hr).1

theorem final_of_run {levels : Nat} {program : Program} (hs : s.EndsIn final)
    (h : (programWithin levels).run s = (.ok program, s')) : final = none := by
  -- The last step takes the end of the input, which is ahead only if there is no fault.
  obtain ⟨_, s₁, hst, hr⟩ := of_run_bind h
  obtain ⟨_, _, ht, _⟩ := of_run_bind hr
  obtain ⟨u, hu, he⟩ := of_take ht
  have hk := keeps_endsIn (Made.statements (Made.level levels).1 (Made.level levels).2) s hs
  rw [hst] at hk
  exact hk.ahead_iff.mp ⟨u, hu, of_decide_eq_true he⟩

end Parser

theorem Pass.Of.endsIn {text : List Char} {pass : Pass} (h : pass.Of text) :
    EndsIn pass.fault { source := { tokens := pass.tokens, fault := pass.fault } } := by
  refine ⟨rfl, ?_⟩
  constructor
  · rintro ⟨t, ht, hk⟩
    cases hf : pass.fault with
    | none => rfl
    | some fault => exact absurd hk ((h.cut fault hf).2 t ht)
  · intro hf
    obtain ⟨body, finish, hts, _⟩ := h.finished hf
    exact ⟨finish.token, by simp [pending, hts], finish.kind_eq⟩

theorem TokenStream.ofText_eq_ofTokens {text : String} (h : (Pass.over text.toList).fault = none) :
    TokenStream.ofText text = .ofTokens (Pass.over text.toList).tokens := by
  rw [TokenStream.ofText, Source.ofText, h]
  rfl

/-- A program that is read from a text is derived from all of its tokens. -/
theorem Parser.exists_derivation_of_run {levels : Nat} {text : String} {program : Program}
    (h : ((programWithin levels).run (.ofText text)).1 = .ok program) :
    (Pass.over text.toList).fault = none ∧
      ∃ d : Derivation .program, d.tree = program ∧ d.tokens = (Pass.over text.toList).tokens ∧
        ∀ s ∈ program, s.WellFormed := by
  have hof := Pass.over_of text.toList
  have hf : (Pass.over text.toList).fault = none := final_of_run hof.endsIn (Prod.ext h rfl)
  rw [ofText_eq_ofTokens hf] at h
  obtain ⟨d, hts, _, rfl, _⟩ := derived_of_run (hof.finished hf) h
  have hw : ∀ s ∈ d.tree, s.Whole (.ofTokens d.tokens) := d.whole fun _ ht => ht
  exact ⟨hf, d, rfl, hts, fun s hs => (hw s hs).wellFormed fun t ht => hof.scanned t (hts ▸ ht)⟩

/-- A text is read as a well-formed program, or ends in a fault of its own. -/
theorem Program.ofText_outcome (text : String) :
    match Program.ofText text with
    | .ok program => ∀ s ∈ program, s.WellFormed
    | .error fault => fault.OfText text.toList := by
  have hof := Pass.over_of text.toList
  have he : EndsIn (Pass.over text.toList).fault (.ofText text) := hof.endsIn
  cases hr : (Parser.programWithin Parser.maxLevels).run (.ofText text) with
  | mk result s =>
    have ho : Program.ofText text = result := congrArg Prod.fst hr
    rw [ho]
    cases result with
    | error fault =>
      have hk := Parser.keeps_endsIn (Parser.Made.programWithin Parser.maxLevels) _ he
      rw [hr] at hk
      obtain hp | hf := hk
      · exact .inl hp
      · exact (hof.cut fault hf).1
    | ok program =>
      obtain ⟨_, _, _, _, hw⟩ := Parser.exists_derivation_of_run ho
      exact hw

end ExprLang
