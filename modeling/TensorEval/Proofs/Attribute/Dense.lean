import TensorEval.Proofs.Attribute.Rows

/-! Dense literals: a literal that was read is read again from its text, with its shape, its type and its values. -/
namespace TensorEval

def DenseValues.map {α β : Type} (f : α → β) : DenseValues α → DenseValues β
  | splat x => .splat (f x)
  | elements xs => .elements (xs.map f)

namespace Attribute

section Contents
variable (shape : Shape) (type : ElementType)

def typeContents : List Char := shape.flatMap (fun d => Text.digits d ++ ['x']) ++ type.name.toList

private theorem tensorType_eq : tensorType shape type = "tensor<".toList ++ typeContents shape type ++ ['>'] := by
  unfold tensorType typeContents
  rw [← List.append_assoc]

private theorem isToken_of_mem_typeContents {c : Char} (hc : c ∈ typeContents shape type) : isToken c = true := by
  rcases List.mem_append.mp hc with hc | hc
  · obtain ⟨d, -, hc⟩ := List.mem_flatMap.mp hc
    rcases List.mem_append.mp hc with hc | hc
    · exact isToken_of_isNumeral (Text.isNumeral_of_isDigit (Text.isDigit_of_mem_digits hc))
    · obtain rfl := List.mem_singleton.mp hc
      rfl
  · exact (token_name type).2 c hc

private theorem splitDimensions_digits {ds : List Char} (hds : ∀ c ∈ ds, c.isDigit = true) (pending cs : List Char) :
    splitDimensions pending (ds ++ cs) = splitDimensions (pending ++ ds) cs := by
  induction ds generalizing pending with
  | nil => rw [List.append_nil, List.nil_append]
  | cons d ds ih =>
    rw [List.cons_append, splitDimensions, if_pos (hds d List.mem_cons_self),
      ih (fun c hc => hds c (List.mem_cons_of_mem d hc)), List.append_assoc, List.singleton_append]

private theorem splitDimensions_name : splitDimensions [] type.name.toList = some ([], type.name.toList) := by
  cases type <;> rfl

private theorem splitDimensions_typeContents :
    splitDimensions [] (typeContents shape type) = some (shape.map Text.digits, type.name.toList) := by
  unfold typeContents
  induction shape with
  | nil => exact splitDimensions_name type
  | cons d rest ih =>
    have hx : ('x' : Char).isDigit = false := by decide
    rw [List.flatMap_cons, List.append_assoc, List.append_assoc,
      splitDimensions_digits fun _ hc => Text.isDigit_of_mem_digits hc, List.nil_append, List.singleton_append,
      splitDimensions, if_neg (by simp [hx]), if_neg (Text.digits_ne_nil d), if_pos rfl, ih]
    rfl

/-- The tensor type of a literal is read back. -/
theorem readTensorType_typeContents (hdims : ∀ d ∈ shape, d < wordBound) :
    readTensorType (typeContents shape type) = .ok (shape, type) := by
  have hread : (shape.map Text.digits).mapM readDimension = .ok shape := by
    rw [except_mapM_eq_ok, List.forall₂_map_left_iff, List.forall₂_same]
    intro d hd
    rw [readDimension, Text.readWord_digits (hdims d hd)]
  rw [readTensorType, splitDimensions_typeContents]
  dsimp only
  rw [if_pos (isTypeWord_name type), hread, except_ok_bind, String.ofList_toList, ElementType.ofName?_name]
  rfl

end Contents

/-- The dimensions that are read fit a word. -/
theorem dims_lt_of_readTensorType {text : List Char} {shape : Shape} {type : ElementType}
    (h : readTensorType text = .ok (shape, type)) : ∀ d ∈ shape, d < wordBound := by
  rw [readTensorType] at h
  split at h
  next dims word _ =>
    split at h
    next =>
      obtain ⟨shape', hdims, h⟩ := except_bind_eq_ok.mp h
      have hshape : shape' = shape := by
        split at h
        · exact congrArg Prod.fst (Except.ok.inj h)
        · exact nomatch h
      subst hshape
      intro d hd
      obtain ⟨digits, -, hread⟩ := exists_of_mem_forall₂ (except_mapM_eq_ok.mp hdims) hd
      rw [readDimension] at hread
      split at hread
      next n hword =>
        obtain rfl := Except.ok.inj hread
        simpa using (Option.filter_eq_some_iff.mp hword).2
      next => exact nomatch hread
    next => exact nomatch h
  next => exact nomatch h

section Form
variable (body : List Char) (shape : Shape) (type : ElementType)

def withType : List Char := "dense<".toList ++ body ++ "> : ".toList ++ tensorType shape type

private theorem withType_eq :
    withType body shape type = "dense<".toList ++ (body ++ ['>', ' ', ':', ' ', 't', 'e', 'n', 's', 'o', 'r', '<'] ++
      typeContents shape type ++ ['>']) := by
  unfold withType
  rw [tensorType_eq]
  simp only [List.append_assoc]
  rfl

/-- The type is found from the end, whatever the body holds. -/
private theorem denseParts_withType : denseParts (withType body shape type) = some (body, typeContents shape type) := by
  have hin : ∀ c ∈ (typeContents shape type).reverse, (c ≠ '<' && c ≠ '>') = true := by
    intro c hc
    have hmark := not_isMark_of_isToken (isToken_of_mem_typeContents shape type (List.mem_reverse.mp hc))
    have hopen : c ≠ '<' := by
      rintro rfl
      exact nomatch hmark
    have hclose : c ≠ '>' := by
      rintro rfl
      exact nomatch hmark
    simp [hopen, hclose]
  have hreverse : (body ++ ['>', ' ', ':', ' ', 't', 'e', 'n', 's', 'o', 'r', '<'] ++ typeContents shape type ++
      ['>']).reverse = '>' :: ((typeContents shape type).reverse ++
        '<' :: ("tensor".toList.reverse ++ ' ' :: ':' :: ' ' :: '>' :: body.reverse)) := by
    simp
  have hsingle (c : Char) (cs : List Char) : afterStart [c] (c :: cs) = some cs := afterStart_append [c] cs
  have hblank (cs : List Char) : (' ' :: cs).dropWhile Text.isBlank = cs.dropWhile Text.isBlank :=
    List.dropWhile_cons_of_pos rfl
  have hcolon (cs : List Char) : (':' :: cs).dropWhile Text.isBlank = ':' :: cs :=
    List.dropWhile_cons_of_neg (by decide)
  have hclose (cs : List Char) : ('>' :: cs).dropWhile Text.isBlank = '>' :: cs :=
    List.dropWhile_cons_of_neg (by decide)
  rw [denseParts, withType_eq, afterStart_append]
  simp only [Option.bind_eq_bind, Option.bind_some, hreverse, hsingle]
  rw [List.takeWhile_append_of_pos hin, List.dropWhile_append_of_pos hin, List.takeWhile_cons_of_neg (by decide),
    List.dropWhile_cons_of_neg (by decide), hsingle, Option.bind_some, afterStart_append]
  simp only [Option.orElse_eq_orElse, Option.orElse_some, Option.bind_some, hblank, hcolon, hclose, hsingle,
    List.append_nil, List.reverse_reverse]
  rfl

theorem form_withType : Form.of (withType body shape type) = .dense body (typeContents shape type) := by
  have hparts := denseParts_withType body shape type
  obtain ⟨rest, hrest⟩ : ∃ rest, withType body shape type = 'd' :: rest := ⟨_, withType_eq body shape type⟩
  have hquoted : quotedBody (withType body shape type) = none := by
    rw [hrest]
    rfl
  have hunit : withType body shape type ≠ "unit".toList := by
    rw [hrest]
    exact fun h => absurd (List.cons.inj h).1 (by decide)
  rw [Form.of, if_neg (by rw [hrest]; exact List.cons_ne_nil _ _), if_neg hunit, hquoted, hparts]

theorem trimmed_withType : Text.Trimmed (withType body shape type) := by
  obtain ⟨inner, hinner⟩ : ∃ inner, withType body shape type = 'd' :: inner ++ ['>'] := by
    refine ⟨"ense<".toList ++ (body ++ ['>', ' ', ':', ' ', 't', 'e', 'n', 's', 'o', 'r', '<'] ++
      typeContents shape type), ?_⟩
    rw [withType_eq]
    simp
  rw [hinner]
  exact Text.trimmed_between rfl rfl inner

private theorem level_withType (hbody : Nesting.Level 0 body) : Nesting.Level 0 (withType body shape type) := by
  have hparts : withType body shape type = "dense".toList ++ (('<' :: body ++ ['>']) ++
      (" : tensor".toList ++ ('<' :: typeContents shape type ++ ['>']))) := by
    rw [withType_eq]
    simp
  have hcontents : Nesting.Level 1 (typeContents shape type) :=
    Nesting.level_of_forall fun c hc => not_isMark_of_isToken (isToken_of_mem_typeContents shape type hc)
  rw [hparts]
  refine Nesting.Level.append (Nesting.level_of_any (by decide)) (Nesting.Level.append ?_ (Nesting.Level.append
    (Nesting.level_of_any (by decide)) ?_))
  · exact Nesting.Level.brackets (o := '<') (c := '>') rfl rfl (hbody.mono (Nat.zero_le 1))
  · exact Nesting.Level.brackets (o := '<') (c := '>') rfl rfl hcontents

end Form

section Body

/-- The tokens of the body of a literal, as many as its shape holds if it is a list. -/
def bodyTokens (shape : Shape) (body : List Char) : Except AttributeFault (List (List Char)) :=
  let body := Text.trim body
  if body.head? = some '"' then .error .encodedPayload
  else match Shape.elementCount shape with
    | none => .error .countOverflow
    | some expected =>
      let tokens := if body.head? = some '[' then listTokens body else [body]
      if body.head? = some '[' ∧ tokens.length ≠ expected then
        .error (.countMismatch tokens.length shape expected)
      else .ok tokens

def sameFloat (type : ElementType) (x y : Double) : Bool := type.carrier.ofDouble x = type.carrier.ofDouble y

def sameInteger (type : ElementType) (m n : Int64) : Bool :=
  type.carrier.ofInteger m.toInt = type.carrier.ofInteger n.toInt

private theorem same_roundedBits {type : ElementType} (htype : type.isFloat = true) :
    (fun x y => decide (roundedBits type x = roundedBits type y)) = sameFloat type := by
  funext x y
  apply decide_eq_decide.mpr
  cases type with
  | i1 | i8 | i16 | i32 | i64 => exact absurd htype Bool.false_ne_true
  | f16 | bf16 | f32 | f64 => exact FloatWord.bits_inj

private theorem toInt_wrapped {type : ElementType} (htype : type.isFloat = false) (n : Int64) :
    (wrapped type n).toInt = type.carrier.toInteger (type.carrier.ofInteger n.toInt) := by
  have hword {w : Nat} : (BitVec.ofInt w n.toInt).toInt = n.toInt.bmod (2 ^ w) := BitVec.toInt_ofInt _
  cases type with
  | i1 =>
    by_cases hn : n = 0
    · subst hn
      rfl
    · have hone : wrapped .i1 n = 1 := if_neg hn
      have htrue : ElementType.i1.carrier.ofInteger n.toInt = true :=
        decide_eq_true fun h => hn (Int64.toInt_inj.mp h)
      rw [hone, htrue]
      rfl
  | i8 => exact (Int8.toInt_toInt64 _).trans ((Int64.toInt_toInt8 n).trans hword.symm)
  | i16 => exact (Int16.toInt_toInt64 _).trans ((Int64.toInt_toInt16 n).trans hword.symm)
  | i32 => exact (Int32.toInt_toInt64 _).trans ((Int64.toInt_toInt32 n).trans hword.symm)
  | i64 => exact (BitVec.ofInt_toInt ▸ rfl : n.toInt = (BitVec.ofInt 64 n.toInt).toInt)
  | f16 | bf16 | f32 | f64 => exact absurd htype.symm Bool.false_ne_true

private theorem toInteger_inj {type : ElementType} (htype : type.isFloat = false) {v w : Element type}
    (h : type.carrier.toInteger v = type.carrier.toInteger w) : v = w := by
  cases type with
  | i1 => exact match v, w, h with
    | true, true, _ => rfl
    | false, false, _ => rfl
  | i8 | i16 | i32 | i64 => exact BitVec.eq_of_toInt_eq h
  | f16 | bf16 | f32 | f64 => exact absurd htype.symm Bool.false_ne_true

private theorem same_wrapped {type : ElementType} (htype : type.isFloat = false) :
    (fun m n => decide (wrapped type m = wrapped type n)) = sameInteger type := by
  funext m n
  apply decide_eq_decide.mpr
  rw [← Int64.toInt_inj, toInt_wrapped htype, toInt_wrapped htype]
  exact ⟨toInteger_inj htype, congrArg _⟩

/-- The literal of the values that tokens are read as, with the tests by which values count as the same. -/
private def literalOf (sameFloats : Double → Double → Bool) (sameIntegers : Int64 → Int64 → Bool) (shape : Shape)
    (type : ElementType) (tokens : List (List Char)) : Except AttributeFault Attribute :=
  if type.isFloat then do
    let values ← tokens.mapM (readFloat type)
    return denseFloat ⟨shape, type, collapse sameFloats values⟩
  else do
    let values ← tokens.mapM readInteger
    return denseInteger ⟨shape, type, collapse sameIntegers values⟩

private theorem literalOf_same (shape : Shape) (type : ElementType) :
    literalOf (fun x y => roundedBits type x = roundedBits type y) (fun m n => wrapped type m = wrapped type n) shape type =
      literalOf (sameFloat type) (sameInteger type) shape type := by
  funext tokens
  unfold literalOf
  split
  next htype => rw [same_roundedBits htype]
  next htype => rw [same_wrapped (by simpa using htype)]

private theorem readDense_tokens (shape : Shape) (type : ElementType) (body : List Char) :
    readDense shape type body = bodyTokens shape body >>= literalOf
      (fun x y => roundedBits type x = roundedBits type y) (fun m n => wrapped type m = wrapped type n) shape type := by
  unfold readDense bodyTokens
  dsimp only
  generalize Text.trim body = trimmed
  by_cases hquote : trimmed.head? = some '"'
  · rw [if_pos hquote, if_pos hquote]
    rfl
  rw [if_neg hquote, if_neg hquote]
  cases Shape.elementCount shape with
  | none => rfl
  | some expected =>
    dsimp only
    by_cases hlist : trimmed.head? = some '['
    · simp only [hlist, if_true, true_and]
      by_cases hlen : (listTokens trimmed).length = expected
      · simp only [hlen, ne_eq, not_true_eq_false, if_false]
        rfl
      · simp only [hlen, ne_eq, not_false_eq_true, if_true]
        rfl
    · simp only [hlist, if_false, false_and]
      rfl

theorem readDense_eq (shape : Shape) (type : ElementType) (body : List Char) :
    readDense shape type body = do
      let tokens ← bodyTokens shape body
      if type.isFloat then
        let values ← tokens.mapM (readFloat type)
        return denseFloat ⟨shape, type, collapse (sameFloat type) values⟩
      else
        let values ← tokens.mapM readInteger
        return denseInteger ⟨shape, type, collapse (sameInteger type) values⟩ := by
  rw [readDense_tokens, literalOf_same]
  rfl

variable {shape : Shape} {n : Nat}

/-- The tokens of a list are as many as its shape holds. -/
theorem bodyTokens_of_list {body : List Char} {tokens : List (List Char)} (hlist : (Text.trim body).head? = some '[')
    (h : bodyTokens shape body = .ok tokens) :
    tokens = listTokens (Text.trim body) ∧ shape.elementCount = some tokens.length := by
  unfold bodyTokens at h
  dsimp only at h
  rw [hlist, if_neg (by decide)] at h
  split at h
  · exact nomatch h
  next expected hcount =>
    rw [if_pos rfl] at h
    split at h
    · exact nomatch h
    next hlen =>
      obtain rfl := Except.ok.inj h
      exact ⟨rfl, hcount.trans (congrArg some (by simpa [eq_comm] using hlen))⟩

theorem bodyTokens_list {body : List Char} (hlist : (Text.trim body).head? = some '[')
    (hcount : shape.elementCount = some (listTokens (Text.trim body)).length) :
    bodyTokens shape body = .ok (listTokens (Text.trim body)) := by
  unfold bodyTokens
  dsimp only
  rw [hlist, if_neg (by decide), hcount]
  dsimp only
  rw [if_pos rfl, if_neg (by simp)]

private theorem length_of_bodyTokens {body : List Char} {tokens : List (List Char)}
    (h : bodyTokens shape body = .ok tokens) :
    ∃ n, shape.elementCount = some n ∧ (tokens.length = n ∨ tokens.length = 1) := by
  by_cases hlist : (Text.trim body).head? = some '['
  · exact ⟨_, (bodyTokens_of_list hlist h).2, Or.inl rfl⟩
  · unfold bodyTokens at h
    dsimp only at h
    split at h
    · exact nomatch h
    split at h
    · exact nomatch h
    next expected hcount =>
      rw [if_neg (fun hne => hlist hne.1)] at h
      obtain rfl := Except.ok.inj h
      exact ⟨expected, hcount, Or.inr rfl⟩

private theorem bodyTokens_token (hcount : shape.elementCount = some n) {t : List Char} (ht : Token t) :
    bodyTokens shape t = .ok [t] := by
  have hhead (c : Char) (hc : isToken c = false) : t.head? ≠ some c := by
    intro h
    rw [ht.2 c (List.mem_of_mem_head? h)] at hc
    exact nomatch hc
  unfold bodyTokens
  dsimp only
  rw [Text.trim_eq_self ht.trimmed, if_neg (hhead '"' (by decide)), hcount]
  dsimp only
  rw [if_neg (hhead '[' (by decide)), if_neg (fun h => hhead '[' (by decide) h.1)]

theorem bodyTokens_nested {texts : List (List Char)} (hcount : shape.elementCount = some texts.length)
    (hrank : shape ≠ []) (htexts : ∀ t ∈ texts, Nests [] [t] t) : bodyTokens shape (nested shape texts) = .ok texts := by
  obtain ⟨inner, hinner⟩ : ∃ inner, nested shape texts = '[' :: inner ++ [']'] := by
    cases shape with
    | nil => exact absurd rfl hrank
    | cons d rest => exact ⟨_, rfl⟩
  have htrim : Text.trim (nested shape texts) = nested shape texts := by
    rw [hinner]
    exact Text.trim_eq_self (Text.trimmed_between rfl rfl inner)
  have htokens : listTokens (Text.trim (nested shape texts)) = texts := by
    rw [htrim]
    exact (nests_nested hcount htexts).listTokens_eq
  rw [bodyTokens_list (by rw [htrim, hinner]; rfl) (htokens.symm ▸ hcount), htokens]

end Body

section Values
variable {α : Type} {good : α → Prop} {same : α → α → Bool}

/-- The values that reading gives for a shape of `n` elements: one value, or a list of them that are not all the
same. -/
def Listed (good : α → Prop) (same : α → α → Bool) (n : Nat) : DenseValues α → Prop
  | .splat x => good x
  | .elements xs => xs.length = n ∧ n ≠ 1 ∧ (∀ x ∈ xs, good x) ∧ collapse same xs = .elements xs

private theorem listed_collapse {n : Nat} {values : List α} (hgood : ∀ x ∈ values, good x)
    (hlen : values.length = n ∨ values.length = 1) : Listed good same n (collapse same values) := by
  cases values with
  | nil =>
    have hn : n = 0 := by
      rcases hlen with h | h
      · exact h.symm
      · exact nomatch h
    subst hn
    exact ⟨rfl, by decide, hgood, rfl⟩
  | cons first rest =>
    by_cases hsame : rest.all (same first) = true
    · have hcollapse : collapse same (first :: rest) = .splat first := if_pos hsame
      rw [hcollapse]
      exact hgood first List.mem_cons_self
    · have hcollapse : collapse same (first :: rest) = .elements (first :: rest) := if_neg hsame
      have hone : (first :: rest).length ≠ 1 := by
        intro h
        have hrest : rest = [] := List.length_eq_zero_iff.mp (Nat.succ.inj h)
        subst hrest
        exact hsame rfl
      have hcount : (first :: rest).length = n := hlen.resolve_right hone
      rw [hcollapse]
      exact ⟨hcount, hcount ▸ hone, hgood, hcollapse⟩

theorem collapse_map {canon : α → α} (hsame : ∀ x y, same (canon x) (canon y) = same x y) (values : List α) :
    collapse same (values.map canon) = (collapse same values).map canon := by
  cases values with
  | nil => rfl
  | cons first rest =>
    have hall : (rest.map canon).all (same (canon first)) = rest.all (same first) := by
      rw [List.all_map]
      exact congrArg rest.all (funext fun y => hsame first y)
    rw [List.map_cons, collapse, collapse, hall]
    split <;> rfl

def bodyText (value : α → List Char) (shape : Shape) : DenseValues α → List Char
  | .splat x => value x
  | .elements xs => nested shape (xs.map value)

theorem denseText_eq (value : α → List Char) (literal : Dense α) :
    denseText value literal = withType (bodyText value literal.shape literal.values) literal.shape literal.type := by
  obtain ⟨shape, type, values⟩ := literal
  cases values <;> rfl

variable {value : α → List Char} {readValue : List Char → Except AttributeFault α} {shape : Shape}

private theorem level_bodyText (hvalue : ∀ x, Token (value x)) (values : DenseValues α) :
    Nesting.Level 0 (bodyText value shape values) := by
  cases values with
  | splat x => exact (hvalue x).level
  | elements xs =>
    apply level_nested
    intro t ht
    obtain ⟨x, -, rfl⟩ := List.mem_map.mp ht
    exact hvalue x

theorem level_denseText (hvalue : ∀ x, Token (value x)) (literal : Dense α) :
    Nesting.Level 0 (denseText value literal) := by
  rw [denseText_eq]
  exact level_withType _ _ _ (level_bodyText hvalue _)

private theorem read_bodyText {n : Nat} (canon : α → α) (hvalue : ∀ x, Token (value x))
    (hread : ∀ x, good x → readValue (value x) = .ok (canon x))
    (hsame : ∀ x y, same (canon x) (canon y) = same x y) (hcount : shape.elementCount = some n)
    {values : DenseValues α} (h : Listed good same n values) :
    ∃ tokens, bodyTokens shape (bodyText value shape values) = .ok tokens ∧
      ∃ xs, tokens.mapM readValue = .ok xs ∧ collapse same xs = values.map canon := by
  cases values with
  | splat x =>
    refine ⟨[value x], bodyTokens_token hcount (hvalue x), [canon x], ?_, rfl⟩
    rw [except_mapM_eq_ok]
    exact List.Forall₂.cons (hread x h) List.Forall₂.nil
  | elements xs =>
    obtain ⟨hlen, hne, hgood, hcollapse⟩ := h
    have hrank : shape ≠ [] := by
      rintro rfl
      exact hne (Option.some.inj hcount).symm
    refine ⟨xs.map value, bodyTokens_nested ?_ hrank ?_, xs.map canon, ?_, ?_⟩
    · rw [List.length_map, hlen, hcount]
    · intro t ht
      obtain ⟨x, -, rfl⟩ := List.mem_map.mp ht
      exact .of_token (hvalue x)
    · rw [except_mapM_eq_ok, List.forall₂_map_left_iff, List.forall₂_map_right_iff, List.forall₂_same]
      exact fun x hx => hread x (hgood x hx)
    · rw [collapse_map hsame, hcollapse]

end Values

/-- Whether a literal is one that can be read: its dimensions are words, and its values fill its shape. -/
def Literal {α : Type} (good : α → Prop) (same : α → α → Bool) (literal : Dense α) : Prop :=
  (∀ d ∈ literal.shape, d < wordBound) ∧
    ∃ n, literal.shape.elementCount = some n ∧ Listed good same n literal.values

theorem readDenseParts_eq {body contents : List Char} {shape : Shape} {type : ElementType}
    (h : readTensorType contents = .ok (shape, type)) : readDenseParts body contents = readDense shape type body := by
  rw [readDenseParts, h]
  rfl

/-- What can be read from the text of a dense literal. -/
theorem readDenseParts_cases {body type : List Char} {a : Attribute} (h : readDenseParts body type = .ok a) :
    (∃ literal, a = denseFloat literal ∧ literal.type.isFloat = true ∧
        Literal (Kept literal.type) (sameFloat literal.type) literal) ∨
      ∃ literal, a = denseInteger literal ∧ literal.type.isFloat = false ∧
        Literal (fun _ => True) (sameInteger literal.type) literal := by
  obtain ⟨⟨shape, elementType⟩, htype, h⟩ := except_bind_eq_ok.mp h
  have hdims := dims_lt_of_readTensorType htype
  dsimp only at h
  rw [readDense_eq] at h
  obtain ⟨tokens, htokens, h⟩ := except_bind_eq_ok.mp h
  obtain ⟨n, hcount, hlen⟩ := length_of_bodyTokens htokens
  split at h
  next hfloat =>
    obtain ⟨values, hvalues, h⟩ := except_bind_eq_ok.mp h
    have hforall := except_mapM_eq_ok.mp hvalues
    rw [hforall.length_eq] at hlen
    refine Or.inl ⟨_, (Except.ok.inj h).symm, hfloat, hdims, n, hcount, listed_collapse ?_ hlen⟩
    intro x hx
    obtain ⟨token, -, hread⟩ := exists_of_mem_forall₂ hforall hx
    exact kept_of_readFloat hread
  next hfloat =>
    obtain ⟨values, hvalues, h⟩ := except_bind_eq_ok.mp h
    rw [(except_mapM_eq_ok.mp hvalues).length_eq] at hlen
    exact Or.inr ⟨_, (Except.ok.inj h).symm, by simpa using hfloat, hdims, n, hcount,
      listed_collapse (fun _ _ => trivial) hlen⟩

theorem read_withType {body : List Char} {shape : Shape} {type : ElementType} {a : Attribute}
    (hdims : ∀ d ∈ shape, d < wordBound) (h : readDense shape type body = .ok a) :
    read (withType body shape type) = .ok a := by
  have htrim := Text.trim_eq_self (trimmed_withType body shape type)
  rw [read_eq_ok_iff]
  apply Reads.dense
  · rw [htrim]
    exact form_withType body shape type
  · rw [readDenseParts_eq (readTensorType_typeContents shape type hdims)]
    exact h

theorem read_denseFloat {literal : Dense Double} (hfloat : literal.type.isFloat = true)
    (h : Literal (Kept literal.type) (sameFloat literal.type) literal) :
    read (text (denseFloat literal)) = .ok (denseFloat literal) := by
  obtain ⟨hdims, n, hcount, hlisted⟩ := h
  obtain ⟨tokens, htokens, xs, hxs, hcollapse⟩ := read_bodyText id (token_floatText literal.type)
    (fun x hx => readFloat_floatText hx) (fun _ _ => rfl) hcount hlisted
  have hvalues : literal.values.map id = literal.values := by
    cases literal.values with
    | splat x => rfl
    | elements xs => exact congrArg DenseValues.elements (List.map_id xs)
  rw [text, denseText_eq]
  apply read_withType hdims
  rw [readDense_eq, htokens, except_ok_bind, if_pos hfloat, hxs, except_ok_bind, hcollapse, hvalues]
  rfl

/-- An integer and what its text is read as are the same element. -/
theorem ofInteger_canonicalInteger (type : ElementType) (n : Int64) :
    type.carrier.ofInteger (canonicalInteger type n).toInt = type.carrier.ofInteger n.toInt := by
  by_cases htype : type = .i1
  · subst htype
    by_cases hn : n = 0
    · subst hn
      rfl
    · have hone : canonicalInteger .i1 n = 1 := by simp [canonicalInteger, hn]
      have hne : n.toInt ≠ 0 := fun h => hn (Int64.toInt_inj.mp h)
      rw [hone]
      exact (decide_eq_true hne).symm
  · rw [canonicalInteger, if_neg htype]

private theorem sameInteger_canonicalInteger (type : ElementType) (m n : Int64) :
    sameInteger type (canonicalInteger type m) (canonicalInteger type n) = sameInteger type m n := by
  rw [sameInteger, sameInteger, ofInteger_canonicalInteger, ofInteger_canonicalInteger]

def canonicalLiteral (literal : Dense Int64) : Dense Int64 :=
  { literal with values := literal.values.map (canonicalInteger literal.type) }

theorem read_denseInteger {literal : Dense Int64} (hfloat : literal.type.isFloat = false)
    (h : Literal (fun _ => True) (sameInteger literal.type) literal) :
    read (text (denseInteger literal)) = .ok (denseInteger (canonicalLiteral literal)) := by
  obtain ⟨hdims, n, hcount, hlisted⟩ := h
  obtain ⟨tokens, htokens, xs, hxs, hcollapse⟩ := read_bodyText (canonicalInteger literal.type) (token_integerText literal.type)
    (fun x _ => readInteger_integerText literal.type x) (sameInteger_canonicalInteger literal.type) hcount hlisted
  rw [text, denseText_eq]
  apply read_withType hdims
  rw [readDense_eq, htokens, except_ok_bind, if_neg (by simp [hfloat]), hxs, except_ok_bind, hcollapse]
  rfl

end Attribute

end TensorEval
