import Lox.Proofs.Correspondence
import Lox.Proofs.NumberText

/-!
# Expression text determines the tree

A literal that is not a string is written without blanks and parentheses, and differently from every
other one. Any other node is written as its name and its operands in parentheses, with a blank in
front of each operand. So the text of a tree without strings tells where it ends, whatever stands
behind it in the text of a larger tree (`Expr.reads_of_operands`): where one node ends with a
parenthesis, another one with the same name and more operands goes on with a blank.
-/

namespace Lox

theorem Text.not_mem_of_all {text marks : List Char} (h : text.all (· ∉ marks) = true) :
    ∀ c ∈ text, c ∉ marks := fun c hc => of_decide_eq_true (List.all_eq_true.1 h c hc)

namespace Symbol

theorem find?_text (s : Symbol) : all.find? (·.text == s.text) = some s := by
  cases s <;> decide

theorem text_injective {s s' : Symbol} (h : s.text = s'.text) : s = s' := by
  have hsome := s.find?_text
  rw [h, find?_text] at hsome
  exact (Option.some.inj hsome).symm

theorem text_ne_group (s : Symbol) : s.text ≠ "group" := by
  cases s <;> decide

end Symbol

theorem UnaryOp.text_injective {op op' : UnaryOp} (h : op.text = op'.text) : op = op' := by
  have hop := UnaryOp.ofKind?_eq_some.2 (congrArg Kind.symbol (Symbol.text_injective h))
  rw [UnaryOp.ofKind?_eq_some.2 rfl] at hop
  exact Option.some.inj hop

theorem BinaryOp.text_injective {op op' : BinaryOp} (h : op.text = op'.text) : op = op' := by
  have hop := BinaryOp.ofKind?_eq_some.2 (congrArg Kind.symbol (Symbol.text_injective h))
  rw [BinaryOp.ofKind?_eq_some.2 rfl] at hop
  exact Option.some.inj hop

namespace Value

def isString : Value → Bool
  | string _ => true
  | _ => false

variable {v w : Value}

/-- The words for truth values and `nil` are no numbers. -/
theorem text_number_ne (x : Float) (hw : w.isString = false) (hnumber : ∀ y, w ≠ number y) :
    (number x).text ≠ w.text := by
  have hletter {c : Char} {word : String} (hc : c ∈ word.toList)
      (hother : ¬ (c.isDigit = true ∨ c ∈ ['-', '.', 'i', 'n', 'f', 'N', 'a'])) :
      (number x).text ≠ word := by
    rintro rfl
    exact hother (Decimal.Format.mem_write_plain hc)
  cases w with
  | number y => exact absurd rfl (hnumber y)
  | string => cases hw
  | bool b =>
      cases b with
      | false => exact hletter (c := 'l') (by decide) (by decide)
      | true => exact hletter (c := 't') (by decide) (by decide)
  | nil => exact hletter (c := 'l') (by decide) (by decide)

theorem text_injective (hv : v.isString = false) (hw : w.isString = false)
    (h : v.text = w.text) : v = w := by
  cases v with
  | number x =>
      cases w with
      | number y => exact congrArg number (Decimal.Format.write_plain_injective h)
      | string => cases hw
      | bool | nil => exact absurd h (text_number_ne x hw (by simp))
  | string => cases hv
  | bool b =>
      cases w with
      | number y => exact absurd h.symm (text_number_ne y hv (by simp))
      | string => cases hw
      | bool b' =>
          have hinjective : ∀ b b', (bool b).text = (bool b').text → b = b' := by decide
          exact congrArg bool (hinjective b b' h)
      | nil => cases b <;> exact absurd h (by decide)
  | nil =>
      cases w with
      | number y => exact absurd h.symm (text_number_ne y hv (by simp))
      | string => cases hw
      | bool b => cases b <;> exact absurd h (by decide)
      | nil => rfl

theorem not_mem_of_mem_text (hv : v.isString = false) :
    ∀ c ∈ v.text.toList, c ∉ [' ', '(', ')'] := by
  cases v with
  | number =>
      intro c hc hmark
      have hnumber := Decimal.Format.mem_write_plain hc
      simp only [List.mem_cons, List.not_mem_nil, or_false] at hmark
      rcases hmark with rfl | rfl | rfl <;> exact absurd hnumber (by decide)
  | string => cases hv
  | bool b => cases b <;> exact Text.not_mem_of_all (by decide)
  | nil => exact Text.not_mem_of_all (by decide)

end Value

namespace Expr

/-- No literal of the tree is a string. -/
def stringFree : Expr → Bool
  | literal v => !v.isString
  | group inner => inner.stringFree
  | unary _ _ right => right.stringFree
  | binary _ _ left right => left.stringFree && right.stringFree

def name? : Expr → Option String
  | literal _ => none
  | group _ => some "group"
  | unary op _ _ => some op.text
  | binary op _ _ _ => some op.text

def operands : Expr → List Expr
  | literal _ => []
  | group inner => [inner]
  | unary _ _ right => [right]
  | binary _ _ left right => [left, right]

/-- What stands behind the name of a node, with `back` behind the node. -/
def operandChars (back : List Char) : List Expr → List Char
  | [] => ')' :: back
  | operand :: operands => ' ' :: (operand.text.toList ++ operandChars back operands)

abbrev delimiters : List Char := [' ', ')']

/-- Texts that a literal or a name in front does not reach into. -/
def Delimited (back : List Char) : Prop :=
  ∀ c ∈ back.head?, c ∈ delimiters

variable {e f : Expr} {name : String} {back back' : List Char}

theorem delimited_operandChars (back : List Char) (operands : List Expr) :
    Delimited (operandChars back operands) := by
  cases operands <;> simp [Delimited, operandChars]

theorem append_inj_of_delimited {front front' : List Char} (h : ∀ c ∈ front, c ∉ delimiters)
    (h' : ∀ c ∈ front', c ∉ delimiters) (hback : Delimited back) (hback' : Delimited back')
    (heq : front ++ back = front' ++ back') : front = front' ∧ back = back' := by
  have htake {body tail : List Char} (hbody : ∀ c ∈ body, c ∉ delimiters)
      (htail : Delimited tail) : (body ++ tail).takeWhile (· ∉ delimiters) = body := by
    rw [List.takeWhile_append_of_pos fun c hc => decide_eq_true (hbody c hc)]
    cases tail with
    | nil => simp
    | cons c tail => rw [List.takeWhile_cons_of_neg (by simp [htail c rfl]), List.append_nil]
  obtain rfl : front = front' := by rw [← htake h hback, heq, htake h' hback']
  exact ⟨rfl, List.append_cancel_left heq⟩

theorem toList_text_append (h : e.name? = some name) (back : List Char) :
    e.text.toList ++ back = '(' :: (name.toList ++ operandChars back e.operands) := by
  cases e with
  | literal => cases h
  | group | unary | binary =>
      cases h
      simp [text, operands, operandChars]

theorem not_mem_name (h : e.name? = some name) : ∀ c ∈ name.toList, c ∉ delimiters := by
  cases e with
  | literal => cases h
  | group => cases h; exact Text.not_mem_of_all (by decide)
  | unary op => cases h; cases op <;> exact Text.not_mem_of_all (by decide)
  | binary op => cases h; cases op <;> exact Text.not_mem_of_all (by decide)

theorem exists_literal_of_name? (h : e.name? = none) : ∃ v, e = literal v := by
  cases e with
  | literal v => exact ⟨v, rfl⟩
  | group | unary | binary => cases h

theorem stringFree_of_mem_operands (h : e.stringFree = true) : ∀ o ∈ e.operands, o.stringFree := by
  cases e with
  | literal => simp [operands]
  | group | unary | binary => simpa [operands, stringFree] using h

theorem corresponds_of_operands (he : e.name? = some name) (hf : f.name? = some name)
    (h : List.Forall₂ (Corresponds (· = ·) fun _ _ => True) e.operands f.operands) :
    e.Corresponds (· = ·) (fun _ _ => True) f := by
  have hname : e.name? = f.name? := he.trans hf.symm
  cases e with
  | literal => cases he
  | group =>
      cases f with
      | literal => cases hf
      | group => exact .group (List.forall₂_cons.1 h).1
      | unary op | binary op => exact absurd (Option.some.inj hname).symm op.symbol.text_ne_group
  | unary op =>
      cases f with
      | literal => cases hf
      | group => exact absurd (Option.some.inj hname) op.symbol.text_ne_group
      | unary op' =>
          obtain rfl : op = op' := UnaryOp.text_injective (Option.some.inj hname)
          exact .unary op trivial (List.forall₂_cons.1 h).1
      | binary => cases (List.forall₂_cons.1 h).2
  | binary op =>
      cases f with
      | literal => cases hf
      | group => exact absurd (Option.some.inj hname) op.symbol.text_ne_group
      | unary => cases (List.forall₂_cons.1 h).2
      | binary op' =>
          obtain rfl : op = op' := BinaryOp.text_injective (Option.some.inj hname)
          obtain ⟨hleft, hright⟩ := List.forall₂_cons.1 h
          exact .binary op trivial hleft (List.forall₂_cons.1 hright).1

theorem not_mem_literal {v : Value} (hv : v.isString = false) :
    ∀ c ∈ v.text.toList, c ∉ delimiters := by
  intro c hc hdelimiter
  have hsub : delimiters ⊆ [' ', '(', ')'] := by decide
  exact Value.not_mem_of_mem_text hv c hc (hsub hdelimiter)

theorem literal_append_ne {v : Value} (hv : v.isString = false) (hback : Delimited back)
    (rest : List Char) : v.text.toList ++ back ≠ '(' :: rest := by
  intro heq
  cases htext : v.text.toList with
  | nil =>
      rw [htext, List.nil_append] at heq
      have hparen := hback '(' (by rw [heq]; rfl)
      exact absurd hparen (by decide)
  | cons c text =>
      rw [htext, List.cons_append] at heq
      obtain ⟨rfl, -⟩ := List.cons.inj heq
      have hmem : '(' ∈ v.text.toList := by rw [htext]; exact List.mem_cons_self
      exact Value.not_mem_of_mem_text hv _ hmem (by decide)

/-- Where a tree stands in a text, no other one without strings stands. -/
def Reads (e : Expr) : Prop :=
  ∀ (f : Expr) (back back' : List Char), f.stringFree = true → Delimited back → Delimited back' →
    e.text.toList ++ back = f.text.toList ++ back' →
      e.Corresponds (· = ·) (fun _ _ => True) f ∧ back = back'

theorem operandChars_inj {os os' : List Expr} (hreads : ∀ o ∈ os, o.Reads)
    (hfree : ∀ o ∈ os', o.stringFree = true)
    (heq : operandChars back os = operandChars back' os') :
    List.Forall₂ (Corresponds (· = ·) fun _ _ => True) os os' ∧ back = back' := by
  induction os generalizing os' with
  | nil =>
      cases os' with
      | nil => exact ⟨.nil, List.tail_eq_of_cons_eq heq⟩
      -- one node ends where the other one has a further operand
      | cons => cases heq
  | cons o os ih =>
      cases os' with
      | nil => cases heq
      | cons o' os' =>
          obtain ⟨ho, hos⟩ := List.forall_mem_cons.1 hreads
          obtain ⟨hfree, hfrees⟩ := List.forall_mem_cons.1 hfree
          obtain ⟨hfirst, hmore⟩ := ho o' _ _ hfree (delimited_operandChars _ _)
            (delimited_operandChars _ _) (List.tail_eq_of_cons_eq heq)
          obtain ⟨hothers, hback⟩ := ih hos hfrees hmore
          exact ⟨.cons hfirst hothers, hback⟩

/-- A tree is read in one way only if its operands are. -/
theorem reads_of_operands (he : e.stringFree = true) (hreads : ∀ o ∈ e.operands, o.Reads) :
    e.Reads := by
  intro f back back' hf hback hback' heq
  cases hname : e.name? with
  | none =>
      obtain ⟨v, rfl⟩ := exists_literal_of_name? hname
      have hv : v.isString = false := by simpa [stringFree] using he
      cases hname' : f.name? with
      | none =>
          obtain ⟨w, rfl⟩ := exists_literal_of_name? hname'
          have hw : w.isString = false := by simpa [stringFree] using hf
          obtain ⟨htext, hback⟩ := append_inj_of_delimited (not_mem_literal hv)
            (not_mem_literal hw) hback hback' heq
          obtain rfl := Value.text_injective hv hw (String.toList_inj.1 htext)
          exact ⟨.literal rfl, hback⟩
      | some name' =>
          rw [toList_text_append hname'] at heq
          exact absurd heq (literal_append_ne hv hback _)
  | some name =>
      rw [toList_text_append hname] at heq
      cases hname' : f.name? with
      | none =>
          obtain ⟨w, rfl⟩ := exists_literal_of_name? hname'
          have hw : w.isString = false := by simpa [stringFree] using hf
          exact absurd heq.symm (literal_append_ne hw hback' _)
      | some name' =>
          rw [toList_text_append hname'] at heq
          obtain ⟨hsame, hoperands⟩ := append_inj_of_delimited (not_mem_name hname)
            (not_mem_name hname') (delimited_operandChars _ _) (delimited_operandChars _ _)
            (List.tail_eq_of_cons_eq heq)
          obtain rfl := String.toList_inj.1 hsame
          obtain ⟨hcorresponds, hback⟩ :=
            operandChars_inj hreads (stringFree_of_mem_operands hf) hoperands
          exact ⟨corresponds_of_operands hname hname' hcorresponds, hback⟩

theorem reads_of_stringFree (he : e.stringFree = true) : e.Reads := by
  induction e with
  | literal => exact reads_of_operands he (by simp [operands])
  | group _ ih | unary _ _ _ ih => exact reads_of_operands he (by simpa [operands] using ih he)
  | binary _ _ left right ihl ihr =>
      obtain ⟨hleft, hright⟩ := Bool.and_eq_true_iff.1 he
      refine reads_of_operands he ?_
      simpa [operands] using ⟨ihl hleft, ihr hright⟩

/-- Two trees without strings have the same text exactly if they have the same shape, the same
operators and the same literals. There is one value only that is not a number. -/
theorem text_eq_iff_corresponds (he : e.stringFree = true) (hf : f.stringFree = true) :
    e.text = f.text ↔ e.Corresponds (· = ·) (fun _ _ => True) f := by
  constructor
  · intro htext
    have hdelimited : Delimited [] := by simp [Delimited]
    exact (reads_of_stringFree he f [] [] hf hdelimited hdelimited (by rw [htext])).1
  · exact Corresponds.text_eq

/-- `(- (- 0.1) (group NaN))` does not tell on which line its operators stood, but that the unary
minus stands below the binary one. -/
theorem minus_of_minus_read_back :
    let minus (line : Nat) : Token := ⟨.symbol .minus, "-", none, line, ⟨0, 1⟩⟩
    let left : Expr := .literal (.number 0.1)
    let right : Expr := .group (.literal (.number (0 / 0)))
    let tree (line : Nat) : Expr :=
      .binary .subtract (minus line) (.unary .minus (minus line) left) right
    let other : Expr := .unary .minus (minus 1) (.binary .subtract (minus 1) left right)
    ((tree 1).stringFree = true ∧ (tree 2).stringFree = true ∧ other.stringFree = true) ∧
      (tree 1).text = "(- (- 0.1) (group NaN))" ∧
      (tree 1).Corresponds (· = ·) (fun _ _ => True) (tree 2) ∧ (tree 1).text ≠ other.text := by
  intro minus left right tree other
  refine ⟨⟨rfl, rfl, rfl⟩, by decide +kernel, ?_, ?_⟩
  · exact (text_eq_iff_corresponds rfl rfl).1 rfl
  · intro htext
    have hcorresponds := (text_eq_iff_corresponds rfl rfl).1 htext
    dsimp only [tree, other] at hcorresponds
    cases hcorresponds

/-- Strings have to be left out: they are written as they are. -/
example : (literal (.string "nil")).text = (literal .nil).text := rfl

end Expr
end Lox
