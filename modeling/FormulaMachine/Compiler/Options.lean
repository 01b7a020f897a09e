import FormulaMachine.Error
import FormulaMachine.Json.Basic

namespace FormulaMachine

structure CompileOptions where
  defaultLiteralKind : Kind
  implicitCasts : Bool
  maxStackDepth : Option Nat
  deriving DecidableEq, Repr

namespace CompileOptions

def default : CompileOptions :=
  ⟨.float64, true, none⟩

def kindOption? : Json → Option Kind
  | .string s => Kind.ofName? s
  | _ => none

def boolOption? : Json → Option Bool
  | .bool b => some b
  | _ => none

def depthOption? : Json → Option (Option Nat)
  | .null => some none
  | .natural n => if n < 1 <<< 64 then some (some n) else none
  | _ => none

def optionNames : List String :=
  ["default_literal_type", "implicit_casts", "max_stack_depth"]

def setOption? (o : CompileOptions) (name : String) (j : Json) : Option CompileOptions :=
  match name with
  | "default_literal_type" => (kindOption? j).map fun k => { o with defaultLiteralKind := k }
  | "implicit_casts" => (boolOption? j).map fun b => { o with implicitCasts := b }
  | "max_stack_depth" => (depthOption? j).map fun d => { o with maxStackDepth := d }
  | _ => some o

def ofFields? (o : CompileOptions) (known : List String) : List (Json × Json) →
    Option CompileOptions
  | [] => some o
  | (.string name, j) :: fields =>
      if known.contains name then none
      else
        let known := if optionNames.contains name then name :: known else known
        (setOption? o name j).bind fun o => ofFields? o known fields
  | _ :: _ => none

def ofItems? (o : CompileOptions) : List String → List Json → Option CompileOptions
  | _, [] => some o
  | name :: names, j :: items => (setOption? o name j).bind fun o => ofItems? o names items
  | [], _ :: _ => none

def ofJson? : Json → Option CompileOptions
  | .object fields => ofFields? default [] fields
  | .array items => ofItems? default optionNames items
  | _ => none

def read [Json.Reader] (text : String) : Except Error CompileOptions :=
  match (Json.Reader.document? text).bind ofJson? with
  | some o => .ok o
  | none => .error .badOptions

end CompileOptions

end FormulaMachine
