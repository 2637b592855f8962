import Primer.Error

/-!
# Token streams

A stream is a position in a list of tokens: the tokens behind it, nearest
first, and the tokens ahead.  Advancing moves one token from ahead to behind
and nothing ever moves back, so the list itself stays the same throughout a
parse.

The number of tokens ahead is kept with them, so that a parser can tell at once
whether it has made progress.

`ParseM` is the monad of parsing.  A failure keeps the stream where it was when
the failure arose: a rule that took tokens never gives them back.
-/

namespace Primer

/-- A position in a list of tokens. -/
structure TokenStream where
  /-- The tokens before the position, the nearest one first. -/
  behind : List Token
  /-- The tokens from the position on. -/
  ahead : List Token
  /-- How many tokens are ahead. -/
  remaining : Nat
  remaining_eq : remaining = ahead.length

/-- Computations that take tokens off a stream. -/
abbrev ParseM := EStateM Failure TokenStream

namespace TokenStream

/-- The stream that is in front of the first token. -/
def ofTokens (tokens : List Token) : TokenStream := ⟨[], tokens, tokens.length, rfl⟩

/-- All tokens, in the order of the text. -/
def tokens (s : TokenStream) : List Token := s.behind.reverse ++ s.ahead

/-- The number of tokens before the position. -/
def position (s : TokenStream) : Nat := s.behind.length

/-- The next token, if there is one. -/
def peek? (s : TokenStream) : Option Token := s.ahead.head?

/-- The kind that the next rule has to start with. -/
def nextKind? (s : TokenStream) : Option Kind := s.peek?.map Token.kind

/-- The line of the next token; at the end of the stream that of the last one,
and the first line if there never was a token. -/
def line (s : TokenStream) : Nat :=
  match s.ahead, s.behind with
  | t :: _, _ => t.line
  | [], t :: _ => t.line
  | [], [] => 1

/-- The stream after its first token `t`, which `ts` follow. -/
def after (s : TokenStream) (t : Token) (ts : List Token) (hahead : s.ahead = t :: ts) :
    TokenStream :=
  ⟨t :: s.behind, ts, s.remaining - 1, by simp [s.remaining_eq, hahead]⟩

/-- Takes the next token, if there is one. -/
def advance? (s : TokenStream) : Option Token × TokenStream :=
  match hahead : s.ahead with
  | [] => (none, s)
  | t :: ts => (some t, s.after t ts hahead)

/-- Takes the next token, which has to be of the given kind.  Otherwise the
stream stays where it is. -/
def expect (kind : Kind) : ParseM Token := fun s =>
  match s.peek? with
  | none => .error (.error (.unexpectedEnd s.line)) s
  | some t =>
      if t.kind = kind then .ok t s.advance?.2
      else .error (.error (.unexpectedToken t.line t.kind kind)) s

/-! ## Advancing only moves the position -/

/-- Two streams are equal once their tokens behind and ahead are. -/
theorem eq_of_lists {s s' : TokenStream} (hbehind : s.behind = s'.behind)
    (hahead : s.ahead = s'.ahead) : s = s' := by
  have hremaining : s.remaining = s'.remaining := by
    rw [s.remaining_eq, s'.remaining_eq, hahead]
  cases s
  cases s'
  simp_all

theorem advance?_of_ahead {s : TokenStream} {t : Token} {ts : List Token}
    (hahead : s.ahead = t :: ts) : s.advance? = (some t, s.after t ts hahead) := by
  unfold advance?
  split
  · next hnil => cases hnil.symm.trans hahead
  · next hcons =>
      cases hcons.symm.trans hahead
      rfl

/-- At the end of the stream, whatever is expected is missing. -/
theorem expect_of_ahead_eq_nil {s : TokenStream} (hahead : s.ahead = []) (kind : Kind) :
    expect kind s = .error (.error (.unexpectedEnd s.line)) s := by
  rw [expect, peek?, hahead]
  rfl

/-- Before the end, the next token is taken if it is of the kind, and stays if not. -/
theorem expect_of_ahead_eq_cons {s : TokenStream} {t : Token} {ts : List Token}
    (hahead : s.ahead = t :: ts) (kind : Kind) :
    expect kind s = if t.kind = kind then .ok t (s.after t ts hahead)
      else .error (.error (.unexpectedToken t.line t.kind kind)) s := by
  have hpeek : s.peek? = some t := by rw [peek?, hahead, List.head?_cons]
  rw [expect, hpeek, advance?_of_ahead hahead]

theorem expect_ok {kind : Kind} {s rest : TokenStream} {t : Token}
    (hexpect : expect kind s = .ok t rest) :
    t.kind = kind ∧ s.ahead = t :: rest.ahead ∧ rest.behind = t :: s.behind := by
  cases hahead : s.ahead with
  | nil =>
      rw [expect_of_ahead_eq_nil hahead] at hexpect
      cases hexpect
  | cons t' ts =>
      rw [expect_of_ahead_eq_cons hahead] at hexpect
      split at hexpect
      · next hkind =>
          cases hexpect
          exact ⟨hkind, rfl, rfl⟩
      · cases hexpect

theorem expect_error {kind : Kind} {s rest : TokenStream} {failure : Failure}
    (hexpect : expect kind s = .error failure rest) : rest = s := by
  cases hahead : s.ahead with
  | nil =>
      rw [expect_of_ahead_eq_nil hahead] at hexpect
      cases hexpect
      rfl
  | cons t ts =>
      rw [expect_of_ahead_eq_cons hahead] at hexpect
      split at hexpect
      · cases hexpect
      · cases hexpect
        rfl

end TokenStream

end Primer
