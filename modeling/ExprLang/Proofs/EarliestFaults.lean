import ExprLang.Proofs.Locality
import ExprLang.Proofs.ParserExactness

/-!
A problem is found at the first token that no program of the language could have there, and depends
on nothing behind that token.
-/

namespace ExprLang

open ExprLang.Parser TokenStream

theorem Problem.Blames.kind_of_unexpectedEnd {problem : Problem} {t : Token}
    (h : problem.Blames t) (hc : problem.code = "E102") : t.kind = .endOfInput := by
  cases problem with
  | unexpectedEnd expected => exact h
  | _ => simp [Problem.code] at hc

theorem Problem.Blames.kind_of_unexpectedToken {problem : Problem} {t : Token}
    (h : problem.Blames t) (hc : problem.code = "E101") : t.kind ≠ .endOfInput := by
  cases problem with
  | unexpectedToken expected found => exact h.1
  | _ => simp [Problem.code] at hc

theorem Begins.exists_statements {read : List Token} (h : Begins .program read)
    (hr : ∀ t ∈ read, t.kind ≠ .endOfInput) :
    ∃ (d : Derivation .statements) (more : List Token), d.Bounded ∧ d.tokens = read ++ more := by
  obtain ⟨d, hb, hd⟩ := h
  cases d with
  | program body finish =>
    rw [Derivation.tokens, List.prefix_concat_iff] at hd
    rcases hd with hd | ⟨more, hd⟩
    · exact absurd finish.kind_eq (hr finish.token (by simp [hd]))
    · exact ⟨body, more, hb, hd.symm⟩

namespace Parser

variable {levels : Nat} {problem : Problem} {s : TokenStream} {ts : List Token}

theorem exists_blamed_of_run
    (hr : (programWithin levels).run (.ofTokens ts) = (.error (.problem problem), s))
    (hp : problem ≠ .nestingTooDeepToParse) :
    ∃ before t after, ts = before ++ t :: after ∧ s = looking t after ∧ problem.Blames t ∧
      Begins .program before := by
  have he := programWithin_sound levels ts (.ofTokens ts) rfl rfl
  rw [hr] at he
  obtain he | ⟨he, _⟩ | ⟨before, t, after, problem', hts, hb, hs, hf, ht⟩ := he
  · cases he
  · exact absurd (Fault.problem.inj he) hp
  · obtain rfl := Fault.problem.inj hf
    exact ⟨before, t, after, hts, hs, ht, hb⟩

theorem run_of_blamed {before after : List Token} {t : Token}
    (hr : (programWithin levels).run (.ofTokens (before ++ t :: after)) =
      (.error (.problem problem), looking t after)) (more : Source) :
    (programWithin levels).run ⟨⟨before ++ t :: more.tokens, more.fault⟩, none⟩ =
      (.error (.problem problem), ⟨more, some t⟩) := by
  have hl := (Made.programWithin levels).localAt (s := .ofTokens (before ++ t :: after)) rfl
  obtain ⟨_, pulled, hts, hmore⟩ := hl _ _ hr (by simp)
  have hp : pulled = before ++ [t] := by
    apply List.append_cancel_right
    simpa [ofTokens, looking] using hts.symm
  have hrun := hmore more
  rw [hp, List.append_assoc] at hrun
  exact hrun

theorem eq_nesting_of_run {d : Derivation .program} (hd : d.Bounded)
    (hr : ((programWithin levels).run (.ofTokens d.tokens)).1 = .error (.problem problem)) :
    problem = .nestingTooDeepToParse := by
  rcases run_of_derivation levels (s := .ofTokens d.tokens) d hd rfl rfl with hok | ⟨_, he⟩
  · rw [hok] at hr
    cases hr
  · rw [he] at hr
    exact (Fault.problem.inj (Except.error.inj hr)).symm

theorem last_or_inside {body before after : List Token} {last t : Token}
    (h : body ++ [last] = before ++ t :: after) :
    (before = body ∧ t = last) ∨ ∃ after', body = before ++ t :: after' := by
  rcases List.eq_nil_or_concat after with rfl | ⟨front, last', rfl⟩
  · obtain ⟨h₁, h₂⟩ := List.append_inj' h rfl
    exact .inl ⟨h₁.symm, (List.cons.inj h₂).1.symm⟩
  · have hcons : body ++ [last] = (before ++ t :: front) ++ [last'] := by simpa using h
    exact .inr ⟨front, (List.append_inj' hcons rfl).1⟩

theorem proper_beginning_of_run {read more : List Token} {finish : Mark .endOfInput}
    {d : Derivation .statements} (hd : d.Bounded) (hdt : d.tokens = read ++ more)
    (hr : ((programWithin levels).run (.ofTokens (read ++ [finish.token]))).1 =
      .error (.problem problem))
    (hp : problem ≠ .nestingTooDeepToParse) : more ≠ [] ∧ Valid (read ++ more) := by
  refine ⟨?_, hdt ▸ Derivation.valid hd finish⟩
  rintro rfl
  have ht : (Derivation.program d finish).tokens = read ++ [finish.token] := by
    rw [Derivation.tokens, hdt, List.append_nil]
  rw [← ht] at hr
  exact hp (eq_nesting_of_run (d := .program d finish) hd hr)

theorem not_valid_of_blamed {before after : List Token} {t : Token}
    (hr : ∀ more : Source,
      (programWithin levels).run ⟨⟨before ++ t :: more.tokens, more.fault⟩, none⟩ =
        (.error (.problem problem), ⟨more, some t⟩))
    (hp : problem ≠ .nestingTooDeepToParse) (more : List Token) :
    ¬ Valid (before ++ t :: after ++ more) := by
  rintro ⟨finish, program, d, hts, hb, _⟩
  have he := hr { tokens := after ++ more ++ [finish.token] }
  have hs : TokenStream.ofTokens d.tokens =
      { source := ⟨before ++ t :: (after ++ more ++ [finish.token]), none⟩ } := by
    rw [hts]
    simp [ofTokens]
  have hrun : ((programWithin levels).run (.ofTokens d.tokens)).1 = .error (.problem problem) := by
    rw [hs, he]
  exact hp (eq_nesting_of_run hb hrun)

end Parser

/-- The problem that ends a run is met at the earliest token: the run stands there and has pulled
nothing more, what stands behind does not matter, and what stands in front has a completion. -/
theorem problem_at_earliest_token {levels : Nat} {body : List Token} {finish : Mark .endOfInput}
    {problem : Problem} {s : TokenStream} (hbody : ∀ t ∈ body, t.kind ≠ .endOfInput)
    (hr : (programWithin levels).run (.ofTokens (body ++ [finish.token])) =
      (.error (.problem problem), s))
    (hp : problem ≠ .nestingTooDeepToParse) :
    ∃ before t after, body ++ [finish.token] = before ++ t :: after ∧
      s = { source := { tokens := after }, current := some t } ∧
      (∀ more : Source,
        (programWithin levels).run { source := ⟨before ++ t :: more.tokens, more.fault⟩ } =
          (.error (.problem problem), { source := more, current := some t })) ∧
      (∃ more, Valid (before ++ more)) ∧
      (problem.code = "E102" → t.kind = .endOfInput) ∧
      (problem.code = "E101" → t.kind ≠ .endOfInput) ∧
      (t.kind = .endOfInput ↔ ∃ more, more ≠ [] ∧ Valid (body ++ more)) := by
  obtain ⟨before, t, after, hts, rfl, ht, hb⟩ := exists_blamed_of_run hr hp
  have hlocal := run_of_blamed (hts ▸ hr)
  have hsplit := last_or_inside hts
  have hbefore : ∀ u ∈ before, u.kind ≠ .endOfInput := by
    intro u hu
    apply hbody
    rcases hsplit with ⟨rfl, _⟩ | ⟨_, rfl⟩
    · exact hu
    · exact List.mem_append_left _ hu
  obtain ⟨d, more, hd, hdt⟩ := hb.exists_statements hbefore
  refine ⟨before, t, after, hts, rfl, hlocal, ⟨more, hdt ▸ Derivation.valid hd finish⟩,
    ht.kind_of_unexpectedEnd, ht.kind_of_unexpectedToken, ?_⟩
  rcases hsplit with ⟨rfl, rfl⟩ | ⟨after', rfl⟩
  · have hb := proper_beginning_of_run hd hdt (congrArg Prod.fst hr) hp
    exact ⟨fun _ => ⟨more, hb⟩, fun _ => finish.kind_eq⟩
  · constructor
    · intro hk
      exact absurd hk (hbody t (by simp))
    · rintro ⟨more, _, hv⟩
      exact absurd hv (not_valid_of_blamed hlocal hp more)

/-- In `x(0,)` the closing parenthesis is to blame. -/
theorem problem_at_earliest_token_argument :
    let read : List Token :=
      [.sample .name, .sample .openParen, .sample .number, .sample .comma]
    let body : List Token := read ++ [.sample .closeParen]
    ((programWithin 2).run (.ofTokens (body ++ [.endOfInput]))).1 =
        .error (.problem (.noExpression "')'")) ∧
      (∃ more, Valid (read ++ more)) ∧ ¬ ∃ more, more ≠ [] ∧ Valid (body ++ more) := by
  intro read body
  have hr : (programWithin 2).run
        (.ofTokens (body ++ [(Mark.sample .endOfInput).token])) =
      (.error (.problem (.noExpression "')'")), looking (.sample .closeParen) [.endOfInput]) := by
    with_unfolding_all rfl
  have hbody : ∀ t ∈ body, t.kind ≠ .endOfInput := by decide
  obtain ⟨before, t, after, hts, hs, _, hc, _, _, hv⟩ :=
    problem_at_earliest_token hbody hr (by simp)
  simp only [looking, TokenStream.mk.injEq, Source.mk.injEq, Option.some.injEq] at hs
  obtain ⟨⟨rfl, _⟩, rfl⟩ := hs
  have hread : read ++ [.sample .closeParen, .endOfInput] =
      before ++ [.sample .closeParen, .endOfInput] := hts
  obtain rfl := List.append_cancel_right hread
  refine ⟨congrArg Prod.fst hr, hc, ?_⟩
  intro hm
  exact absurd (hv.mpr hm) (by decide)

end ExprLang
