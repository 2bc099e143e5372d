import EntityLisp.Form.Read

/-!
# Streams of tokens

A stream hands out the tokens of a list one by one and can look at the next token without taking
it. A token that was looked at waits in front of the others until it is taken. Forms can be read
from the stream at any point, also after a fault.
-/

namespace EntityLisp

/-- **A stream of tokens** with at most one token waiting. -/
structure TokenStream where
  waiting : Option String
  upcoming : List String
  deriving DecidableEq

namespace TokenStream

/-- The stream of all tokens of a list. -/
def ofList (tokens : List String) : TokenStream := ⟨none, tokens⟩

/-- The tokens that have not been taken. -/
def remaining (stream : TokenStream) : List String := stream.waiting.toList ++ stream.upcoming

/-- **The next token, which stays in the stream.** -/
def peek : TokenStream → Option String × TokenStream
  | ⟨some token, upcoming⟩ => (some token, ⟨some token, upcoming⟩)
  | ⟨none, []⟩ => (none, ⟨none, []⟩)
  | ⟨none, token :: upcoming⟩ => (some token, ⟨some token, upcoming⟩)

/-- **The next token, taken from the stream.** -/
def advance : TokenStream → Option String × TokenStream
  | ⟨some token, upcoming⟩ => (some token, ⟨none, upcoming⟩)
  | ⟨none, []⟩ => (none, ⟨none, []⟩)
  | ⟨none, token :: upcoming⟩ => (some token, ⟨none, upcoming⟩)

/-! ### The tokens that remain -/

@[simp] theorem remaining_ofList (tokens : List String) : (ofList tokens).remaining = tokens := rfl

theorem remaining_peek (stream : TokenStream) : stream.peek.2.remaining = stream.remaining := by
  rcases stream with ⟨_ | token, _ | ⟨next, upcoming⟩⟩ <;> rfl

theorem remaining_advance (stream : TokenStream) :
    stream.advance.2.remaining = stream.remaining.tail := by
  rcases stream with ⟨_ | token, _ | ⟨next, upcoming⟩⟩ <;> rfl

theorem advance_eq_head? (stream : TokenStream) : stream.advance.1 = stream.remaining.head? := by
  rcases stream with ⟨_ | token, _ | ⟨next, upcoming⟩⟩ <;> rfl

theorem peek_eq_head? (stream : TokenStream) : stream.peek.1 = stream.remaining.head? := by
  rcases stream with ⟨_ | token, _ | ⟨next, upcoming⟩⟩ <;> rfl

/-- A token that is seen is the next one, in front of those that are left when it is taken. -/
theorem remaining_eq_cons {stream looked : TokenStream} {token : String}
    (h : stream.peek = (some token, looked)) :
    stream.remaining = token :: looked.advance.2.remaining := by
  rcases stream with ⟨_ | waiting, _ | ⟨next, upcoming⟩⟩ <;> cases h <;> rfl

/-- If no token is seen, none remains. -/
theorem remaining_eq_nil {stream looked : TokenStream} (h : stream.peek = (none, looked)) :
    stream.remaining = [] ∧ looked = ofList [] := by
  rcases stream with ⟨_ | waiting, _ | ⟨next, upcoming⟩⟩ <;> cases h
  exact ⟨rfl, rfl⟩

/-- No token waits once the next one has been taken. -/
theorem advance_eq_ofList (stream : TokenStream) :
    stream.advance.2 = ofList stream.advance.2.remaining := by
  rcases stream with ⟨_ | token, _ | ⟨next, upcoming⟩⟩ <;> rfl

theorem length_remaining_lt {stream looked : TokenStream} {token : String}
    (h : stream.peek = (some token, looked)) :
    looked.advance.2.remaining.length < stream.remaining.length := by
  rw [remaining_eq_cons h]
  exact Nat.lt_succ_self _

/-! ### Reading a form -/

/-- Reads on inside a form. Each token is looked at, and taken once it is known what it is. The
open forms are held as they are by `EntityLisp.readItems`. -/
def readItems (room : Nat) (items : List Node) (outer : List (List Node)) (stream : TokenStream) :
    Except SyntaxError Node × TokenStream :=
  match _looked : stream.peek with
  | (none, looked) => (.error .unclosedForm, looked)
  | (some token, looked) =>
    let after := looked.advance.2
    if token = ")" then
      let form := Node.form (normalForm items.reverse)
      match outer with
      | [] => (.ok form, after)
      | around :: outer => readItems (room + 1) (form :: around) outer after
    else if token = "(" then
      match room with
      | 0 => (.error .nestedTooDeeply, looked)
      | room + 1 => readItems room [] (items :: outer) after
    else
      match readAtom token with
      | .ok atom => readItems room (atom :: items) outer after
      | .error error => (.error error, after)
termination_by stream.remaining.length
decreasing_by all_goals exact length_remaining_lt ‹_›

/-- **The form at the head of the stream.** The tokens of the form are taken, or those up to and
including the one at fault. A parenthesis that would nest too deeply stays in the stream. -/
def readForm [Stack] (stream : TokenStream) : Except SyntaxError Node × TokenStream :=
  match stream.advance with
  | (token?, after) =>
    if token? = some "(" then readItems (nestingLimit - 1) [] [] after
    else (.error (.expectedOpen token?), after)

end TokenStream

end EntityLisp
