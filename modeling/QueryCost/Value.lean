/-
  QueryCost.Value — values of arguments, defaults and variables.

  One type serves for both kinds of value: `Value ν` has variables named by `ν`, and a
  constant is a value over no names at all. Putting values in for the variables
  (`bind`) is the only way from the first to the second.

  The fields of an object keep the order of their first occurrence.
-/

import QueryCost.Json.Basic
import QueryCost.Text.Quoted

namespace QueryCost

inductive Value (ν : Type) where
  | var (name : ν)
  | null
  | boolean (value : Bool)
  | number (value : Number)
  | string (value : String)
  | enum (name : String)
  | list (items : List (Value ν))
  | object (fields : List (String × Value ν))
  deriving Repr

/-- A value without variables. -/
abbrev Constant := Value Empty

namespace Value

variable {ν μ κ : Type}

instance : Inhabited (Value ν) := ⟨.null⟩

/-! ## Putting values in for variables -/

mutual

/-- The value with `f x` in the place of every variable `x`. -/
def bind (f : ν → Value μ) : Value ν → Value μ
  | .var x => f x
  | .null => .null
  | .boolean b => .boolean b
  | .number n => .number n
  | .string s => .string s
  | .enum e => .enum e
  | .list items => .list (bindItems f items)
  | .object fields => .object (bindFields f fields)

def bindItems (f : ν → Value μ) : List (Value ν) → List (Value μ)
  | [] => []
  | v :: rest => bind f v :: bindItems f rest

def bindFields (f : ν → Value μ) : List (String × Value ν) → List (String × Value μ)
  | [] => []
  | (name, v) :: rest => (name, bind f v) :: bindFields f rest

end

mutual

/-- Putting values in, and then others for the variables in these, is done at once. -/
theorem bind_bind (f : ν → Value μ) (g : μ → Value κ) (v : Value ν) :
    (v.bind f).bind g = v.bind fun x => (f x).bind g := by
  cases v with
  | list items => simp only [bind, bindItems_bindItems f g items]
  | object fields => simp only [bind, bindFields_bindFields f g fields]
  | _ => simp only [bind]

theorem bindItems_bindItems (f : ν → Value μ) (g : μ → Value κ) (items : List (Value ν)) :
    bindItems g (bindItems f items) = bindItems (fun x => (f x).bind g) items := by
  cases items with
  | nil => rfl
  | cons v rest => simp only [bindItems, bind_bind f g v, bindItems_bindItems f g rest]

theorem bindFields_bindFields (f : ν → Value μ) (g : μ → Value κ) (fields : List (String × Value ν)) :
    bindFields g (bindFields f fields) = bindFields (fun x => (f x).bind g) fields := by
  cases fields with
  | nil => rfl
  | cons field rest => simp only [bindFields, bind_bind f g field.2, bindFields_bindFields f g rest]

end

mutual

/-- A value with every variable in its own place is the same. -/
theorem bind_var (v : Value ν) : v.bind .var = v := by
  cases v with
  | list items => simp only [bind, bindItems_var items]
  | object fields => simp only [bind, bindFields_var fields]
  | _ => simp only [bind]

theorem bindItems_var (items : List (Value ν)) : bindItems .var items = items := by
  cases items with
  | nil => rfl
  | cons v rest => simp only [bindItems, bind_var v, bindItems_var rest]

theorem bindFields_var (fields : List (String × Value ν)) : bindFields .var fields = fields := by
  cases fields with
  | nil => rfl
  | cons field rest => simp only [bindFields, bind_var field.2, bindFields_var rest]

end

/-- A constant where a value is asked for. -/
def ofConstant (c : Constant) : Value ν := c.bind Empty.elim

/-- There are no variables in a constant to put values in for. -/
theorem bind_ofConstant (f : ν → Constant) (c : Constant) : (ofConstant c).bind f = c := by
  have hnone : (fun x : Empty => (Empty.elim x : Value ν).bind f) = .var := funext nofun
  rw [ofConstant, bind_bind, hnone, bind_var]

/-! ## Equality -/

mutual

def decEq [DecidableEq ν] : (v w : Value ν) → Decidable (v = w)
  | .var x, .var y => if h : x = y then isTrue (h ▸ rfl) else isFalse fun e => h (Value.var.inj e)
  | .null, .null => isTrue rfl
  | .boolean a, .boolean b =>
    if h : a = b then isTrue (h ▸ rfl) else isFalse fun e => h (Value.boolean.inj e)
  | .number a, .number b => if h : a = b then isTrue (h ▸ rfl) else isFalse fun e => h (Value.number.inj e)
  | .string a, .string b => if h : a = b then isTrue (h ▸ rfl) else isFalse fun e => h (Value.string.inj e)
  | .enum a, .enum b => if h : a = b then isTrue (h ▸ rfl) else isFalse fun e => h (Value.enum.inj e)
  | .list a, .list b =>
    match decEqItems a b with
    | isTrue h => isTrue (h ▸ rfl)
    | isFalse h => isFalse fun e => h (Value.list.inj e)
  | .object a, .object b =>
    match decEqFields a b with
    | isTrue h => isTrue (h ▸ rfl)
    | isFalse h => isFalse fun e => h (Value.object.inj e)
  | .var _, .null | .var _, .boolean _ | .var _, .number _ | .var _, .string _ | .var _, .enum _
  | .var _, .list _ | .var _, .object _
  | .null, .var _ | .null, .boolean _ | .null, .number _ | .null, .string _ | .null, .enum _
  | .null, .list _ | .null, .object _
  | .boolean _, .var _ | .boolean _, .null | .boolean _, .number _ | .boolean _, .string _
  | .boolean _, .enum _ | .boolean _, .list _ | .boolean _, .object _
  | .number _, .var _ | .number _, .null | .number _, .boolean _ | .number _, .string _
  | .number _, .enum _ | .number _, .list _ | .number _, .object _
  | .string _, .var _ | .string _, .null | .string _, .boolean _ | .string _, .number _
  | .string _, .enum _ | .string _, .list _ | .string _, .object _
  | .enum _, .var _ | .enum _, .null | .enum _, .boolean _ | .enum _, .number _ | .enum _, .string _
  | .enum _, .list _ | .enum _, .object _
  | .list _, .var _ | .list _, .null | .list _, .boolean _ | .list _, .number _ | .list _, .string _
  | .list _, .enum _ | .list _, .object _
  | .object _, .var _ | .object _, .null | .object _, .boolean _ | .object _, .number _
  | .object _, .string _ | .object _, .enum _ | .object _, .list _ => isFalse (by simp)

def decEqItems [DecidableEq ν] : (v w : List (Value ν)) → Decidable (v = w)
  | [], [] => isTrue rfl
  | [], _ :: _ => isFalse (by simp)
  | _ :: _, [] => isFalse (by simp)
  | v :: vs, w :: ws =>
    match decEq v w, decEqItems vs ws with
    | isTrue h, isTrue hs => isTrue (h ▸ hs ▸ rfl)
    | isFalse h, _ => isFalse fun e => h (List.cons.inj e).1
    | _, isFalse hs => isFalse fun e => hs (List.cons.inj e).2

def decEqFields [DecidableEq ν] : (v w : List (String × Value ν)) → Decidable (v = w)
  | [], [] => isTrue rfl
  | [], _ :: _ => isFalse (by simp)
  | _ :: _, [] => isFalse (by simp)
  | (a, v) :: vs, (b, w) :: ws =>
    if ha : a = b then
      match decEq v w, decEqFields vs ws with
      | isTrue h, isTrue hs => isTrue (ha ▸ h ▸ hs ▸ rfl)
      | isFalse h, _ => isFalse fun e => h (Prod.mk.inj (List.cons.inj e).1).2
      | _, isFalse hs => isFalse fun e => hs (List.cons.inj e).2
    else isFalse fun e => ha (Prod.mk.inj (List.cons.inj e).1).1

end

instance [DecidableEq ν] : DecidableEq (Value ν) := decEq

end Value

namespace Constant

/-! ## Text -/

mutual

/-- The value as messages show it: `{name: [1, "a", RED]}`. -/
def text : Constant → String
  | .null => "null"
  | .boolean b => if b then "true" else "false"
  | .number n => n.text
  | .string s => Quoted.value s
  | .enum e => e
  | .list items => "[" ++ ", ".intercalate (itemTexts items) ++ "]"
  | .object fields => "\x7b" ++ ", ".intercalate (fieldTexts fields) ++ "\x7d"

def itemTexts : List Constant → List String
  | [] => []
  | v :: rest => text v :: itemTexts rest

def fieldTexts : List (String × Constant) → List String
  | [] => []
  | (name, v) :: rest => (name ++ ": " ++ text v) :: fieldTexts rest

end

/-! ## JSON -/

mutual

/-- A JSON value as a constant, part by part. -/
def ofJson : Json → Constant
  | .null => .null
  | .boolean b => .boolean b
  | .number n => .number n
  | .string s => .string s
  | .array items => .list (ofItems items)
  | .object members => .object (ofMembers members)

def ofItems : List Json → List Constant
  | [] => []
  | v :: rest => ofJson v :: ofItems rest

def ofMembers : List (String × Json) → List (String × Constant)
  | [] => []
  | (name, v) :: rest => (name, ofJson v) :: ofMembers rest

end

mutual

/-- A constant as a JSON value; an enum value becomes a string. -/
def toJson : Constant → Json
  | .null => .null
  | .boolean b => .boolean b
  | .number n => .number n
  | .string s => .string s
  | .enum e => .string e
  | .list items => .array (toItems items)
  | .object fields => .object (toMembers fields)

def toItems : List Constant → List Json
  | [] => []
  | v :: rest => toJson v :: toItems rest

def toMembers : List (String × Constant) → List (String × Json)
  | [] => []
  | (name, v) :: rest => (name, toJson v) :: toMembers rest

end

end Constant

end QueryCost
