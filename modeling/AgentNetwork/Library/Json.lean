import Mathlib.Tactic.Common

/-- JSON values as a program holds them. A number with a fraction or an exponent
is kept as it is written. -/
inductive Json
  | null
  | bool (b : Bool)
  | int (n : Int)
  | float (literal : String)
  | str (s : String)
  | arr (items : List Json)
  | obj (fields : List (String × Json))

namespace Json

mutual

def decEq : (a b : Json) → Decidable (a = b)
  | .null, b => match b with
    | .null => isTrue rfl
    | .bool _ | .int _ | .float _ | .str _ | .arr _ | .obj _ => isFalse nofun
  | .bool p, b => match b with
    | .bool q => if h : p = q then isTrue (h ▸ rfl) else isFalse fun he => h (Json.bool.inj he)
    | .null | .int _ | .float _ | .str _ | .arr _ | .obj _ => isFalse nofun
  | .int p, b => match b with
    | .int q => if h : p = q then isTrue (h ▸ rfl) else isFalse fun he => h (Json.int.inj he)
    | .null | .bool _ | .float _ | .str _ | .arr _ | .obj _ => isFalse nofun
  | .float p, b => match b with
    | .float q => if h : p = q then isTrue (h ▸ rfl) else isFalse fun he => h (Json.float.inj he)
    | .null | .bool _ | .int _ | .str _ | .arr _ | .obj _ => isFalse nofun
  | .str p, b => match b with
    | .str q => if h : p = q then isTrue (h ▸ rfl) else isFalse fun he => h (Json.str.inj he)
    | .null | .bool _ | .int _ | .float _ | .arr _ | .obj _ => isFalse nofun
  | .arr xs, b => match b with
    | .arr ys => match decEqItems xs ys with
      | isTrue h => isTrue (h ▸ rfl)
      | isFalse h => isFalse fun he => h (Json.arr.inj he)
    | .null | .bool _ | .int _ | .float _ | .str _ | .obj _ => isFalse nofun
  | .obj xs, b => match b with
    | .obj ys => match decEqFields xs ys with
      | isTrue h => isTrue (h ▸ rfl)
      | isFalse h => isFalse fun he => h (Json.obj.inj he)
    | .null | .bool _ | .int _ | .float _ | .str _ | .arr _ => isFalse nofun

def decEqItems : (xs ys : List Json) → Decidable (xs = ys)
  | [], [] => isTrue rfl
  | [], _ :: _ => isFalse nofun
  | _ :: _, [] => isFalse nofun
  | x :: xs, y :: ys => match decEq x y, decEqItems xs ys with
    | isTrue h, isTrue h' => isTrue (h ▸ h' ▸ rfl)
    | isFalse h, _ => isFalse fun he => h (List.cons.inj he).1
    | _, isFalse h' => isFalse fun he => h' (List.cons.inj he).2

def decEqFields : (xs ys : List (String × Json)) → Decidable (xs = ys)
  | [], [] => isTrue rfl
  | [], _ :: _ => isFalse nofun
  | _ :: _, [] => isFalse nofun
  | (j, x) :: xs, (k, y) :: ys =>
    if hk : j = k then
      match decEq x y, decEqFields xs ys with
      | isTrue h, isTrue h' => isTrue (hk ▸ h ▸ h' ▸ rfl)
      | isFalse h, _ => isFalse fun he => h (Prod.mk.inj (List.cons.inj he).1).2
      | _, isFalse h' => isFalse fun he => h' (List.cons.inj he).2
    else isFalse fun he => hk (Prod.mk.inj (List.cons.inj he).1).1

end

instance : DecidableEq Json := decEq

/-- Whether the value may be a dictionary key. -/
def hashable : Json → Bool
  | .arr _ | .obj _ => false
  | .null | .bool _ | .int _ | .float _ | .str _ => true

/-- Assignment of a field: a key that is there keeps its place. -/
def setField (fields : List (String × Json)) (key : String) (value : Json) : List (String × Json) :=
  match fields with
  | [] => [(key, value)]
  | (k, v) :: rest => if k = key then (k, value) :: rest else (k, v) :: setField rest key value

end Json
