import KestrelCompiler.Decimal.Limit

/-!
Types of the intermediate language. Equality of types is equality of structure.
-/

namespace KestrelCompiler.Ir

inductive Ty where
  | int (width : Nat)
  | void
  | pointer (target : Ty)
  | function (ret : Ty) (args : List Ty)

namespace Ty

def byte : Ty := int 8
def bit : Ty := int 1

mutual

def decEq : (a b : Ty) → Decidable (a = b)
  | int m, int n =>
    if h : m = n then isTrue (congrArg int h) else isFalse fun e => h (int.inj e)
  | void, void => isTrue rfl
  | pointer a, pointer b =>
    match decEq a b with
    | isTrue h => isTrue (congrArg pointer h)
    | isFalse h => isFalse fun e => h (pointer.inj e)
  | function r as, function s bs =>
    match decEq r s, decEqs as bs with
    | isTrue h, isTrue hs => isTrue (by rw [h, hs])
    | isFalse h, _ => isFalse fun e => h (function.inj e).1
    | _, isFalse hs => isFalse fun e => hs (function.inj e).2
  | int _, void | int _, pointer _ | int _, function _ _ => isFalse nofun
  | void, int _ | void, pointer _ | void, function _ _ => isFalse nofun
  | pointer _, int _ | pointer _, void | pointer _, function _ _ => isFalse nofun
  | function _ _, int _ | function _ _, void | function _ _, pointer _ => isFalse nofun

def decEqs : (as bs : List Ty) → Decidable (as = bs)
  | [], [] => isTrue rfl
  | a :: as, b :: bs =>
    match decEq a b, decEqs as bs with
    | isTrue h, isTrue hs => isTrue (by rw [h, hs])
    | isFalse h, _ => isFalse fun e => h (List.cons.inj e).1
    | _, isFalse hs => isFalse fun e => hs (List.cons.inj e).2
  | [], _ :: _ | _ :: _, [] => isFalse nofun

end

instance : DecidableEq Ty := decEq

mutual

/-- Tells whether all widths are short enough to be written. -/
def isWritable : Ty → Bool
  | int width => Decimal.isWritable width
  | void => true
  | pointer target => target.isWritable
  | function ret args => ret.isWritable && areWritable args

def areWritable : List Ty → Bool
  | [] => true
  | type :: rest => type.isWritable && areWritable rest

end

mutual

def render : Ty → String
  | int width => "i" ++ toString width
  | void => "void"
  | pointer target => target.render ++ "*"
  | function ret args => ret.render ++ " (" ++ ", ".intercalate (renderAll args) ++ ")"

def renderAll : List Ty → List String
  | [] => []
  | type :: rest => type.render :: renderAll rest

end

end Ty

end KestrelCompiler.Ir
