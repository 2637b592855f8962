import Mathlib
import Primer.Proofs.Token.Restart

/-!
# Texts with tokens of given kinds

Every kind but the end marker has a sample.  Samples on lines of their own do
not run into one another, so any list of kinds is the list of kinds of a text.
-/

namespace Primer

namespace Lexer

/-- A sample is one lexeme of its kind. -/
theorem exists_tokensFrom_sample {kind : Kind} (hkind : kind ≠ .endMarker) (line : Nat) :
    ∃ lexeme : Lexeme, lexeme.kind = kind ∧
      tokensFrom line kind.sample.toList = .ok [⟨lexeme, line⟩, ⟨.endMarker, line⟩] := by
  cases kind with
  | endMarker => exact absurd rfl hkind
  | name => exact ⟨.name "x", rfl, by cbv⟩
  | number => exact ⟨.number 0, rfl, by cbv⟩
  | string => exact ⟨.string "", rfl, by cbv⟩
  | boolean => exact ⟨.boolean true, rfl, by cbv⟩
  | typeName => exact ⟨.typeName .int, rfl, by cbv⟩
  | keyword k => exact ⟨.keyword k, rfl, by cases k <;> cbv⟩
  | symbol s => exact ⟨.symbol s, rfl, by cases s <;> cbv⟩

/-- The samples of some kinds, each on a line of its own. -/
def samples (kinds : List Kind) : List Char :=
  kinds.flatMap fun kind => kind.sample.toList ++ ['\n']

theorem exists_tokensFrom_samples {kinds : List Kind} (hkinds : .endMarker ∉ kinds) (line : Nat) :
    ∃ (tokens : List Token) (last : Nat), tokens.map Token.kind = kinds ∧
      tokensFrom line (samples kinds) = .ok (tokens ++ [⟨.endMarker, last⟩]) := by
  induction kinds generalizing line with
  | nil => exact ⟨[], line, rfl, tokensFrom_nil line⟩
  | cons kind kinds ih =>
      obtain ⟨hkind, hothers⟩ := not_or.mp (mt List.mem_cons.mpr hkinds)
      obtain ⟨lexeme, rfl, hlexeme⟩ := exists_tokensFrom_sample (Ne.symm hkind) line
      obtain ⟨tokens, last, rfl, htokens⟩ :=
        ih hothers (line + lineBreaks lexeme.kind.sample.toList + 1)
      have hsamples : samples (lexeme.kind :: tokens.map Token.kind) =
          lexeme.kind.sample.toList ++ '\n' :: samples (tokens.map Token.kind) := by
        simp [samples]
      have hfirst : tokensFrom line lexeme.kind.sample.toList =
          .ok ([⟨lexeme, line⟩] ++ [⟨.endMarker, line⟩]) := hlexeme
      refine ⟨⟨lexeme, line⟩ :: tokens, last, rfl, ?_⟩
      rw [hsamples, tokensFrom_newline_of_ok hfirst, htokens]
      rfl

end Lexer

end Primer
