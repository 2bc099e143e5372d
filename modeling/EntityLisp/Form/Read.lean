import EntityLisp.Form.Atom
import EntityLisp.Form.Normal
import EntityLisp.Stack
import EntityLisp.Token

/-!
# Reading forms

Tokens are read from left to right against a stack of the forms that are still open. A closing
parenthesis completes the innermost one, which is brought to normal form and becomes an item of
the form around it. `readForm` reads one form and leaves the tokens behind it; after a fault it
leaves the tokens behind the faulty one. `readForms` reads all forms of a token list.

Forms nest at most `nestingLimit` deep. The parenthesis that would open one more is not taken.
-/

namespace EntityLisp

/-- Reads on inside a form. `items` are the items of the innermost open form, latest first,
`outer` those of the forms around it, innermost first, and `room` says how much deeper forms may
nest. -/
def readItems :
    (room : Nat) → (items : List Node) → (outer : List (List Node)) → List String →
      Except SyntaxError Node × List String
  | _, _, _, [] => (.error .unclosedForm, [])
  | room, items, outer, token :: rest =>
    if token = ")" then
      let form := Node.form (normalForm items.reverse)
      match outer with
      | [] => (.ok form, rest)
      | around :: outer => readItems (room + 1) (form :: around) outer rest
    else if token = "(" then
      match room with
      | 0 => (.error .nestedTooDeeply, token :: rest)
      | room + 1 => readItems room [] (items :: outer) rest
    else
      match readAtom token with
      | .ok atom => readItems room (atom :: items) outer rest
      | .error error => (.error error, rest)

/-- **The first form of a token list,** and the tokens that are left. -/
def readForm [Stack] : List String → Except SyntaxError Node × List String
  | [] => (.error (.expectedOpen none), [])
  | token :: rest =>
    if token = "(" then readItems (nestingLimit - 1) [] [] rest
    else (.error (.expectedOpen (some token)), rest)

/-! ### Progress -/

theorem length_readItems_le (room : Nat) (items : List Node) (outer : List (List Node))
    (tokens : List String) : (readItems room items outer tokens).2.length ≤ tokens.length := by
  induction tokens generalizing room items outer with
  | nil => simp [readItems]
  | cons token rest ih =>
    unfold readItems
    split
    · cases outer with
      | nil => simp
      | cons around outer => exact Nat.le_succ_of_le (ih _ _ _)
    · split
      · cases room with
        | zero => simp
        | succ room => exact Nat.le_succ_of_le (ih _ _ _)
      · cases readAtom token with
        | ok atom => exact Nat.le_succ_of_le (ih _ _ _)
        | error error => simp

theorem length_readForm_lt [Stack] (token : String) (rest : List String) :
    (readForm (token :: rest)).2.length < (token :: rest).length := by
  by_cases h : token = "("
  · simp only [readForm, h, ↓reduceIte]
    exact Nat.lt_succ_of_le (length_readItems_le _ _ _ _)
  · simp [readForm, h]

/-! ### All forms -/

/-- **All forms of a token list,** in order, or the first fault. -/
def readForms [Stack] : List String → Except SyntaxError (List Node)
  | [] => .ok []
  | token :: rest =>
    match h : readForm (token :: rest) with
    | (.ok form, left) =>
      have shorter : left.length < (token :: rest).length := by
        have hlt := length_readForm_lt token rest
        rwa [h] at hlt
      (readForms left).map (form :: ·)
    | (.error error, _) => .error error
termination_by tokens => tokens.length
decreasing_by exact shorter

/-- **The forms of a program text.** -/
def readProgram [Stack] (text : String) : Except SyntaxError (List Node) :=
  (tokenize text).bind readForms

end EntityLisp
