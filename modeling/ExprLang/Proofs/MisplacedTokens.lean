import ExprLang.Proofs.EarliestFaults
import ExprLang.Proofs.ParserOutcomes
import ExprLang.Proofs.TokensInFront

/-!
Misplaced tokens. If the tokens in front of a token begin a program, and the token cannot stand
behind the last of them, the parser stops at this token, whatever stands behind it.
-/

namespace ExprLang

open ExprLang.Parser TokenStream

theorem Nonterminal.ne_program_of_isItem {n : Nonterminal} (h : n.isItem = true) :
    n ≠ .program := by
  rintro rfl
  cases h

/-- Only a whole program has the end of the input among its tokens. -/
theorem Derivation.ne_endOfInput {n : Nonterminal} (d : Derivation n) (hn : n ≠ .program) :
    ∀ t ∈ d.tokens, t.kind ≠ .endOfInput := by
  induction d with
  | program => exact absurd rfl hn
  | statement first semicolon others =>
    cases semicolon <;> simp_all [tokens, or_imp]
  | @operation l op right others =>
    have hend : l.has .endOfInput = false := by cases l <;> rfl
    have hop := TokenKind.ne_of_accepts hend op.accepted
    simp_all [tokens, or_imp]
  | signed sign operand =>
    have hs := TokenKind.ne_of_accepts (j := .endOfInput) rfl sign.accepted
    simp_all [tokens]
  | truth leaf =>
    have hl := TokenKind.ne_of_accepts (j := .endOfInput) rfl leaf.accepted
    simp_all [tokens]
  | items hi | next hi =>
    have hne := Nonterminal.ne_program_of_isItem hi
    simp_all [tokens, or_imp]
  | _ => simp_all [tokens, or_imp]

section
variable {read : List Token} {t : Token}

theorem joined_body {body : Derivation .statements} {finish : Mark .endOfInput}
    (hb : (Derivation.program body finish).Bounded) : Joined none body.tokens := by
  have hrun := run_of_derivation (body.tokens ++ [finish.token]).length
    (s := .ofTokens (body.tokens ++ [finish.token])) (.program body finish) hb rfl rfl
  have he := programWithin_heeds (body.tokens ++ [finish.token]).length
    (body.tokens ++ [finish.token]) (.ofTokens (body.tokens ++ [finish.token])) rfl rfl
  rcases hrun with hok | ⟨hlt, _⟩
  · split at he <;> rename_i heq
    · obtain ⟨_, taken, last, more, hts, hlast, hj⟩ := he
      rcases last_or_inside hts with ⟨rfl, _⟩ | ⟨after, hafter⟩
      · exact hj
      · have hm : last ∈ body.tokens := by simp [hafter]
        exact absurd hlast (body.ne_endOfInput (by decide) last hm)
    · rw [heq] at hok
      cases hok
  · exact absurd hlt (Nat.lt_irrefl _)

/-- What begins a program is joined, if it is not all of it. -/
theorem Begins.joined (h : Begins .program read) (hl : lastKind none read ≠ some .endOfInput) :
    Joined none read := by
  obtain ⟨d, hb, hd⟩ := h
  cases d with
  | program body finish =>
    have hbody := joined_body hb
    rw [Derivation.tokens, List.prefix_concat_iff] at hd
    rcases hd with rfl | ⟨more, hmore⟩
    · rw [lastKind_concat, finish.kind_eq] at hl
      exact absurd rfl hl
    · rw [← hmore] at hbody
      exact (joined_append.mp hbody).1

theorem not_begins_of_not_joins (ht : t.kind ≠ .endOfInput)
    (hj : ¬ Joins (lastKind none read) t.kind) : ¬ Begins .program (read ++ [t]) := by
  intro h
  have hl : lastKind none (read ++ [t]) ≠ some .endOfInput := by
    rw [lastKind_concat]
    exact fun he => ht (Option.some.inj he)
  have hjoined := joined_append.mp (h.joined hl)
  exact hj hjoined.2.2.1

theorem prefix_of_begins {r rest : List Token} (hn : ¬ Begins .program (read ++ [t]))
    (hb : Begins .program r) (hr : r <+: read ++ t :: rest) : r <+: read := by
  have ht : read ++ [t] <+: read ++ t :: rest := by simp
  rcases List.prefix_or_prefix_of_prefix hr ht with h | h
  · rw [List.prefix_concat_iff] at h
    rcases h with rfl | h
    · exact absurd hb hn
    · exact h
  · exact absurd (hb.shorten h) hn

end

namespace Parser

variable {levels : Nat} {read : List Token} {t : Token} {s : TokenStream}

theorem run_of_nesting {taken rest : List Token}
    (hr : (programWithin levels).run (.ofTokens (read ++ t :: rest)) =
      (.error (.problem .nestingTooDeepToParse), s))
    (hts : read ++ t :: rest = taken ++ s.pending) (ht : taken <+: read) (more : Source) :
    ((programWithin levels).run ⟨⟨read ++ t :: more.tokens, more.fault⟩, none⟩).1 =
      .error (.problem .nestingTooDeepToParse) := by
  have hl := (Made.programWithin levels).localAt (s := .ofTokens (read ++ t :: rest)) rfl
  obtain ⟨_, pulled, hp, hmore⟩ := hl _ _ hr (by simp)
  have hpulled : pulled = taken ++ s.current.toList := by
    apply List.append_cancel_right
    rw [List.append_assoc]
    exact hp.symm.trans hts
  -- At most one token is looked at behind those that are taken.
  have hlen : pulled.length ≤ (read ++ [t]).length := by
    have hle := ht.length_le
    have hone : s.current.toList.length ≤ 1 := by cases s.current <;> simp
    rw [hpulled, List.length_append, List.length_append, List.length_singleton]
    omega
  have hfront : read ++ [t] <+: read ++ t :: rest := by simp
  obtain ⟨q, hq⟩ := List.prefix_of_prefix_length_le ⟨_, hp.symm⟩ hfront hlen
  have hrun := hmore ⟨q ++ more.tokens, more.fault⟩
  rw [← List.append_assoc, hq, List.append_assoc] at hrun
  exact congrArg Prod.fst hrun

/-- What is to blame is not among the tokens that begin a program. -/
theorem eq_of_blamed {problem : Problem} {before after rest : List Token} {u : Token}
    (hb : Begins .program read)
    (hr : (programWithin levels).run (.ofTokens (read ++ t :: rest)) =
      (.error (.problem problem), looking u after))
    (hts : read ++ t :: rest = before ++ u :: after) (hu : problem.Blames u)
    (hbefore : before <+: read) : before = read ∧ u = t := by
  obtain ⟨inside, rfl⟩ := hbefore
  rw [List.append_assoc, List.append_cancel_left_eq] at hts
  cases inside with
  | nil => exact ⟨(List.append_nil _).symm, (List.cons.inj hts).1.symm⟩
  | cons v vs =>
    exfalso
    obtain ⟨rfl, rfl⟩ := List.cons.inj hts
    obtain ⟨d, hd, more, hmore⟩ := hb
    have hlocal : ∀ more : Source,
        (programWithin levels).run ⟨⟨before ++ v :: more.tokens, more.fault⟩, none⟩ =
          (.error (.problem problem), ⟨more, some v⟩) := by
      apply run_of_blamed
      simpa using hr
    have hrun : ((programWithin levels).run (.ofTokens d.tokens)).1 =
        .error (.problem problem) := by
      have h := hlocal { tokens := vs ++ more }
      rw [← hmore]
      simpa [ofTokens] using congrArg Prod.fst h
    rw [eq_nesting_of_run hd hrun] at hu
    exact hu

/-- A token that cannot stand behind the last of what begins a program is where the parser stops,
or the levels do not suffice for what is in front of it. -/
theorem stops_at (hb : Begins .program read) (hl : lastKind none read ≠ some .endOfInput)
    (ht : t.kind ≠ .endOfInput) (hj : ¬ Joins (lastKind none read) t.kind) (levels : Nat) :
    (∃ problem : Problem, problem.Blames t ∧ problem.Suits (lastKind none read) ∧
      ∀ more : Source,
        (programWithin levels).run ⟨⟨read ++ t :: more.tokens, more.fault⟩, none⟩ =
          (.error (.problem problem), ⟨more, some t⟩)) ∨
    (levels < read.length + 2 ∧ ∀ more : Source,
      ((programWithin levels).run ⟨⟨read ++ t :: more.tokens, more.fault⟩, none⟩).1 =
        .error (.problem .nestingTooDeepToParse)) := by
  have hn := not_begins_of_not_joins ht hj
  let ts := read ++ t :: [(Mark.sample .endOfInput).token]
  have hsound := programWithin_sound levels ts (.ofTokens ts) rfl rfl
  have hheeds := programWithin_heeds levels ts (.ofTokens ts) rfl rfl
  cases hrun : (programWithin levels).run (.ofTokens ts) with
  | mk result s =>
    rw [hrun] at hsound hheeds
    cases result with
    | ok program =>
      exfalso
      obtain ⟨_, d, last, rest, hd, _, _, _, hts⟩ := hsound
      have hp : d.tokens <+: read := prefix_of_begins hn (.of_bounded hd) ⟨rest, hts.symm⟩
      cases d with
      | program body finish =>
        have hm : finish.token ∈ read := hp.subset (by simp [Derivation.tokens])
        exact (hb.joined hl).ne_endOfInput _ hm finish.kind_eq
    | error fault =>
      obtain rfl | ⟨rfl, taken, hts, hbt⟩ | ⟨before, u, after, problem, hts, hbb, rfl, rfl, hu⟩ :=
        hsound
      · exfalso
        obtain ⟨problem, hp, _⟩ | ⟨_, hend⟩ := fault_of_run (congrArg Prod.fst hrun)
        · cases hp
        · exact hend (Mark.sample .endOfInput).token (by simp [ts]) (Mark.sample _).kind_eq
      · right
        have hp : taken <+: read := prefix_of_begins hn hbt ⟨_, hts.symm⟩
        have hlevels := hheeds.1 rfl
        simp only [ts, List.length_append, List.length_cons, List.length_nil] at hlevels
        exact ⟨by omega, run_of_nesting hrun hts hp⟩
      · left
        have hp : before <+: read := prefix_of_begins hn hbb ⟨_, hts.symm⟩
        obtain ⟨rfl, rfl⟩ := eq_of_blamed hb hrun hts hu hp
        have hne : problem ≠ .nestingTooDeepToParse := by
          rintro rfl
          exact hu
        obtain ⟨taken, htaken, hsuits⟩ := hheeds.2 problem rfl hne
        obtain rfl := List.append_cancel_right (htaken.symm.trans hts)
        obtain ⟨_, rfl⟩ := List.cons.inj (List.append_cancel_left hts)
        exact ⟨problem, hu, hsuits, run_of_blamed hrun⟩

end Parser

end ExprLang
