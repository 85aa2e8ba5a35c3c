import SearchSpace.Proofs.Text.PrefixFree

/-!
# Scanning a text for calls

Who reads a search space from its text meets calls of library functions, each with a label as its
first argument, and in a dictionary with a key in front of it.  A scan from left to right finds
them without knowing anything about the layout: it skips the literals and looks for the name of the
library outside of them.

## Main Definitions

* `Token`, `Token.ofChars`: literals as a whole, and the characters outside of them.
* `argument?`: the label that a call is given, if one begins here.
* `callsAfter`: all calls, with the keys in front of them.
* `callsOf`: the calls in a text.

## Main Statements

* `callsIn_call`, `callsIn_quoted`, `callsIn_key`: what the scan makes of a call, of a literal, and
  of a key.
-/

namespace SearchSpace

/-! ### Tokens -/

/-- A piece of a text: a literal, by the text that it stands for, or a character outside of all
literals. -/
inductive Token where
  | literal (text : String)
  | mark (char : Char)
  deriving DecidableEq

/-- What is being read: a text outside of literals, or a literal of which some characters have been
read, the last one being a backslash or not. -/
inductive Reading where
  | outside
  | inside (read : List Char)
  | escaping (read : List Char)

namespace Token

/-- The tokens from here on; a literal that is not closed is none. -/
def after : Reading → List Char → List Token
  | _, [] => []
  | .outside, char :: chars =>
      if char = '\'' then after (.inside []) chars else .mark char :: after .outside chars
  | .inside read, char :: chars =>
      if char = '\'' then .literal (String.ofList read) :: after .outside chars
      else if char = '\\' then after (.escaping read) chars
      else after (.inside (read ++ [char])) chars
  | .escaping read, char :: chars => after (.inside (read ++ [char])) chars

/-- The tokens of a text. -/
def ofChars (chars : List Char) : List Token := after .outside chars

@[simp] theorem ofChars_nil : ofChars [] = [] := rfl

theorem ofChars_cons {char : Char} (other : char ≠ '\'') (chars : List Char) :
    ofChars (char :: chars) = .mark char :: ofChars chars := by
  simp [ofChars, after, other]

theorem ofChars_append {text : List Char} (plain : '\'' ∉ text) (chars : List Char) :
    ofChars (text ++ chars) = text.map .mark ++ ofChars chars := by
  induction text with
  | nil => rfl
  | cons char text ih =>
      obtain ⟨other, plain⟩ := not_or.mp (mt List.mem_cons.mpr plain)
      rw [List.cons_append, ofChars_cons (Ne.symm other), ih plain, List.map_cons, List.cons_append]

/-- The rest of a literal is read up to the quote that closes it. -/
theorem after_inside (read text chars : List Char) :
    after (.inside read) (escaped text ++ '\'' :: chars) =
      .literal (String.ofList (read ++ text)) :: ofChars chars := by
  induction text generalizing read with
  | nil => simp [escaped, after, ofChars]
  | cons char text ih =>
      have further := ih (read ++ [char])
      rw [List.append_assoc, List.singleton_append] at further
      rw [escaped_cons, ← further]
      split
      · simp [after]
      · next plain => simp_all [after]

/-- A literal is one token. -/
theorem ofChars_quoted (text : String) (chars : List Char) :
    ofChars ((quoted text).toList ++ chars) = .literal text :: ofChars chars := by
  have inside := after_inside [] text.toList chars
  simp only [List.nil_append, String.ofList_toList] at inside
  rw [← inside, toList_quoted]
  simp [ofChars, after]

/-- Whether a token is a character of a name. -/
def isOfName : Token → Bool
  | .mark char => char.isAlphanum || char == '_'
  | .literal _ => false

end Token

/-! ### Calls -/

/-- A call that was found: the key in front of it, if there is one, and the label that is its first
argument. -/
structure Call where
  key : Option String
  argument : String
  deriving DecidableEq

/-- The label that is given to a function of the library, if a call begins here. -/
def argument? : List Token → Option String
  | .mark 'h' :: .mark 'p' :: .mark '.' :: first :: tokens =>
      if first.isOfName then
        match tokens.dropWhile Token.isOfName with
        | .mark '(' :: .literal argument :: _ => some argument
        | _ => none
      else none
  | _ => none

/-- The calls from here on, the first of them with a key if it begins here. -/
def callsAfter : (key : Option String) → List Token → List Call
  | _, [] => []
  | _, .literal key :: .mark ':' :: .mark ' ' :: tokens => callsAfter (some key) tokens
  | key, token :: tokens =>
      ((argument? (token :: tokens)).map (Call.mk key)).toList ++ callsAfter none tokens

/-- The calls in a text from here on. -/
def callsIn (key : Option String) (chars : List Char) : List Call :=
  callsAfter key (Token.ofChars chars)

/-- The calls in a text. -/
def callsOf (text : String) : List Call := callsIn none text.toList

section Scan

variable {key : Option String} {char : Char} {chars text : List Char} {tokens : List Token}

theorem callsAfter_mark (other : char ≠ 'h') :
    callsAfter key (.mark char :: tokens) = callsAfter none tokens := by
  have noCall : argument? (.mark char :: tokens) = none := by
    unfold argument?
    split
    · simp_all
    · rfl
  rw [callsAfter, noCall]
  · rfl
  · simp

theorem callsAfter_literal {content : String} (noKey : tokens.head? ≠ some (.mark ':')) :
    callsAfter key (.literal content :: tokens) = callsAfter none tokens := by
  rw [callsAfter]
  · rfl
  · rintro content' rest - rfl
    simp at noKey

/-- No call begins within a name, since there is no point in it. -/
theorem callsAfter_name {name : List Char} (isName : '.' ∉ name) (label : String) :
    callsAfter none (name.map Token.mark ++ .mark '(' :: .literal label :: tokens) =
      callsAfter none (.literal label :: tokens) := by
  induction name with
  | nil => exact callsAfter_mark (by decide)
  | cons char name ih =>
      obtain ⟨-, isName'⟩ := not_or.mp (mt List.mem_cons.mpr isName)
      have noCall : argument? (.mark char :: (name.map Token.mark ++
          .mark '(' :: .literal label :: tokens)) = none := by
        cases name with
        | nil => simp [argument?]
        | cons second name =>
            cases name with
            | nil => simp [argument?]
            | cons third name =>
                have noPoint : third ≠ '.' := by
                  rintro rfl
                  simp at isName'
                unfold argument?
                split
                · simp_all
                · rfl
      rw [List.map_cons, List.cons_append, callsAfter, noCall, ih isName']
      · rfl
      · simp

/-- A call is found with the label that it is given. -/
theorem callsAfter_call {first : Char} {name : List Char} (begins : (Token.mark first).isOfName)
    (isName : ∀ char ∈ name, (Token.mark char).isOfName = true) (label : String) :
    callsAfter key (.mark 'h' :: .mark 'p' :: .mark '.' ::
        ((first :: name).map Token.mark ++ .mark '(' :: .literal label :: tokens)) =
      ⟨key, label⟩ :: callsAfter none (.literal label :: tokens) := by
  have noPoint : '.' ∉ first :: name := by
    intro member
    rcases List.mem_cons.mp member with rfl | member
    · simp [Token.isOfName] at begins
    · exact absurd (isName '.' member) (by decide)
  have skipped : (name.map Token.mark ++ .mark '(' :: .literal label :: tokens).dropWhile
      Token.isOfName = .mark '(' :: .literal label :: tokens := by
    rw [List.dropWhile_append_of_pos]
    · rfl
    · intro token member
      obtain ⟨char, ofName, rfl⟩ := List.mem_map.mp member
      exact isName char ofName
  have found : argument? (.mark 'h' :: .mark 'p' :: .mark '.' ::
      ((first :: name).map Token.mark ++ .mark '(' :: .literal label :: tokens)) = some label := by
    rw [List.map_cons, List.cons_append, argument?, if_pos begins, skipped]
    rfl
  rw [callsAfter, found, callsAfter_mark (by decide), callsAfter_mark (by decide),
    callsAfter_name noPoint]
  · rfl
  · simp

/-- A character outside of literals that does not begin a call is passed over. -/
theorem callsIn_cons (other : char ≠ 'h') (noQuote : char ≠ '\'') :
    callsIn key (char :: chars) = callsIn none chars := by
  rw [callsIn, Token.ofChars_cons noQuote, callsAfter_mark other, callsIn]

/-- Characters outside of literals of which none begins a call are passed over. -/
theorem callsIn_append (noCall : 'h' ∉ text) (noQuote : '\'' ∉ text) :
    callsIn none (text ++ chars) = callsIn none chars := by
  induction text with
  | nil => rfl
  | cons char text ih =>
      obtain ⟨other, noCall⟩ := not_or.mp (mt List.mem_cons.mpr noCall)
      obtain ⟨other', noQuote⟩ := not_or.mp (mt List.mem_cons.mpr noQuote)
      rw [List.cons_append, callsIn_cons (Ne.symm other) (Ne.symm other'), ih noCall noQuote]

/-- A literal in front of anything but a colon is passed over. -/
theorem callsIn_quoted (content : String) (noKey : char ≠ ':') (noQuote : char ≠ '\'') :
    callsIn key ((quoted content).toList ++ char :: chars) = callsIn none (char :: chars) := by
  rw [callsIn, Token.ofChars_quoted, callsAfter_literal, callsIn]
  rw [Token.ofChars_cons noQuote]
  simpa using noKey

/-- A call in front of anything but a colon is found with the label that it is given. -/
theorem callsIn_call {first : Char} {name : List Char}
    (ofName : ∀ char ∈ first :: name, (Token.mark char).isOfName = true) (label : String)
    (noKey : char ≠ ':') (noQuote : char ≠ '\'') :
    callsIn key ('h' :: 'p' :: '.' ::
        (first :: name ++ '(' :: ((quoted label).toList ++ char :: chars))) =
      ⟨key, label⟩ :: callsIn none (char :: chars) := by
  have plain : '\'' ∉ 'h' :: 'p' :: '.' :: (first :: name ++ ['(']) := by
    have quote : '\'' ∉ first :: name := fun member => absurd (ofName _ member) (by decide)
    simpa using quote
  have split : 'h' :: 'p' :: '.' ::
      (first :: name ++ '(' :: ((quoted label).toList ++ char :: chars)) =
        ('h' :: 'p' :: '.' :: (first :: name ++ ['('])) ++
          ((quoted label).toList ++ char :: chars) := by
    simp
  have behind : (Token.ofChars (char :: chars)).head? ≠ some (.mark ':') := by
    rw [Token.ofChars_cons noQuote]
    simpa using noKey
  rw [callsIn, split, Token.ofChars_append plain, Token.ofChars_quoted]
  simp only [List.map_cons, List.map_append, List.map_nil, List.cons_append, List.append_assoc,
    List.nil_append]
  exact (callsAfter_call (ofName first List.mem_cons_self)
    (fun char member => ofName char (List.mem_cons_of_mem _ member)) label).trans
      (congrArg _ (callsAfter_literal behind))

/-- A key is kept for the call that begins right after it. -/
theorem callsIn_key (content : String) :
    callsIn key ((quoted content).toList ++ (": ".toList ++ chars)) =
      callsIn (some content) chars := by
  have colon : ": ".toList = [':', ' '] := by simp
  rw [callsIn, Token.ofChars_quoted, colon, Token.ofChars_append (by simp)]
  simp [callsAfter, callsIn]

/-- A literal that looks like a call is none. -/
example : callsOf "hp.choice('a', ['hp.choice(\\'b\\', '])" = [⟨none, "a"⟩] := by decide

end Scan

end SearchSpace
