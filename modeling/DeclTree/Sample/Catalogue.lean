import DeclTree.Compilation
import DeclTree.Sample.Tree

/-!
# The built-in samples

Each sample is a tree with what compiling it must give: the exact C text, or the code of the error that stops it. The
self-test compiles all of them.
-/

namespace DeclTree

/-- What compiling a sample must give. -/
inductive Expectation where
  | text (c : String)
  | failure (code : String)

/-- A tree with what compiling it must give. -/
structure Sample where
  name : String
  resolve : Bool
  file : SourceFile
  expected : Expectation

namespace Sample

open Node

/-- Why a sample does not give what it must, if so. -/
def failure? (hash : String → Nat) (sample : Sample) : Option String :=
  match (compile hash sample.file ⟨sample.resolve, false⟩).result, sample.expected with
  | .ok text, .text want =>
    if text = want then none else some ("output differs\n--- expected\n" ++ want ++ "--- got\n" ++ text)
  | .ok _, .failure code => some s!"expected error {code}, got output"
  | .error e, .failure code =>
    if e.code = code then none else some s!"unexpected error {e.code}: {e.message}"
  | .error e, .text _ => some s!"unexpected error {e.code}: {e.message}"

/-- A sample whose tree consists of items only. -/
def ofItems (name : String) (declarations : List Declaration) (expected : Expectation) : Sample :=
  ⟨name, true, ⟨declarations, List.range declarations.length⟩, expected⟩

/-- One variable with an initial value. -/
def mutableInt : Sample := ofItems "mutable_int" [mutable "x" int (some (intLit 5))] (.text "int x = 5;\n\n")

/-- One struct. -/
def structPoint : Sample :=
  ofItems "struct_point" [struct "Point" [("x", int), ("y", int)]]
    (.text "struct Point \x7b\n    int x;\n    int y;\n\x7d;\n\n")

/-- A struct that contains itself. -/
def selfReference : Sample :=
  ofItems "self_reference" [struct "Node" [("next", named "Node")]] (.failure "E0105")

/-- A function that sets two variables. -/
def blockStatements : Sample :=
  ofItems "block_statements"
    [mutable "a" int none, mutable "b" int none,
      function "reset" [] (prim .void)
        [assign .assign (ref "a") (intLit 1), assign .assign (ref "b") (intLit 2)]]
    (.text "int a;\n\nint b;\n\nvoid reset() \x7b\n    a = 1;\n    b = 2;\n\x7d\n\n")

/-- A function whose type is taken from its literal. -/
def inferredFunction : Sample :=
  ofItems "inferred_function" [function "f" [] int [returning (intLit 1)]]
    (.text "int f() \x7b\n    return 1;\n\x7d\n\n")

/-- A list whose nodes link to one another, and the sum over it. -/
def linkedList : Sample where
  name := "linked_list"
  resolve := true
  file :=
    let node : Expr := .paren (.unary .deref (ref "head") .nowhere) .nowhere
    let list : TypeExpr := .nullable (named "Node") .nowhere
    ⟨[struct "Node" [("value", prim .i64), ("next", list)],
      mutable "sum" (prim .i64) (some (lit (.i64 0))),
      function "total" [("head", list)] (prim .i64)
        [.statement (.declaration 1 .nowhere),
          .whileLoop (ref "head")
            (block [assign .add (ref "sum") (.field node (Node.name "value") .nowhere),
              assign .assign (ref "head") (.field node (Node.name "next") .nowhere)]) .nowhere,
          returning (ref "sum")]],
      [0, 2]⟩
  expected := .text <|
    "struct Node \x7b\n    long long value;\n    struct Node * next;\n\x7d;\n\n" ++
    "long long total(struct Node * head) \x7b\n    long long sum = 0LL;\n    while (head) \x7b\n" ++
    "        sum += (*head).value;\n        head = (*head).next;\n    \x7d\n\n    return sum;\n\x7d\n\n"

/-- A union and an enumeration, generated without resolution. -/
def unionAndEnum : Sample where
  name := "union_and_enum"
  resolve := false
  file :=
    ⟨[union "Number" [("i", prim .i64), ("f", prim .f64)],
      Node.declare "Color" (.enumeration (["Red", "Green", "Blue"].map Node.name))], [0, 1]⟩
  expected := .text <|
    "union Number \x7b\n    long long i;\n    double f;\n\x7d;\n\n" ++
    "enum Color \x7b\n    Red,\n    Green,\n    Blue\n\x7d;\n\n"

/-- A loop with a conditional in it. -/
def collatz : Sample where
  name := "collatz"
  resolve := true
  file :=
    ⟨[mutable "steps" int (some (intLit 0)),
      function "collatz" [("n", int)] int
        [.statement (.declaration 0 .nowhere),
          .whileLoop (binary (ref "n") .ne (intLit 1))
            (block
              [.conditional (binary (binary (ref "n") .mod (intLit 2)) .eq (intLit 0))
                (assign .div (ref "n") (intLit 2))
                (some (assign .assign (ref "n") (binary (binary (intLit 3) .mul (ref "n")) .add (intLit 1))))
                .nowhere,
                .statement (.increment (ref "steps") .nowhere)]) .nowhere,
          returning (ref "steps")]],
      [1]⟩
  expected := .text <|
    "int collatz(int n) \x7b\n    int steps = 0;\n    while (n != 1) \x7b\n        if (n % 2 == 0) \x7b\n" ++
    "            n /= 2;\n        \x7d\n\n        else\n            n = 3 * n + 1;\n        ++steps;\n    \x7d\n\n" ++
    "    return steps;\n\x7d\n\n"

/-- A search that jumps out when it finds nothing. -/
def linearSearch : Sample where
  name := "linear_search"
  resolve := true
  file :=
    ⟨[mutable "i" int (some (intLit 0)),
      function "find" [("xs", .pointer int .nowhere), ("n", int), ("key", int)] int
        [.forLoop (.declaration 0 .nowhere) (binary (ref "i") .lt (ref "n")) (.increment (ref "i") .nowhere)
            (block
              [.conditional (binary (.index (ref "xs") (ref "i") .nowhere) .eq (ref "key"))
                (block [returning (ref "i")]) none .nowhere]) .nowhere,
          .statement (.goto (Node.name "missing")),
          .statement (.label (Node.name "missing")),
          returning (.unary .neg (intLit 1) .nowhere)]],
      [1]⟩
  expected := .text <|
    "int find(int * xs, int n, int key) \x7b\n    for (int i = 0; i < n; ++i) \x7b\n" ++
    "        if (xs[i] == key) \x7b\n            return i;\n        \x7d\n\n    \x7d\n\n" ++
    "    goto missing;\n    missing:;\n    return -1;\n\x7d\n\n"

/-- An array with its count, a truth value, and a cast. -/
def arraysAndCasts : Sample :=
  ofItems "arrays_and_casts"
    [mutable "primes" (.array int .nowhere)
        (some (.array (some (intLit 4)) int [intLit 2, intLit 3, intLit 5, intLit 7] .nowhere)),
      mutable "verbose" (prim .bool) (some (.bool true .nowhere)),
      function "lower" [("x", int)] (prim .char)
        [.statement (.decrement (ref "x") .nowhere), returning (.cast (ref "x") (prim .char) .nowhere)]]
    (.text ("int primes[4] = \x7b2, 3, 5, 7\x7d;\n\nint verbose = 1;\n\n" ++
      "char lower(int x) \x7b\n    --x;\n    return (char)x;\n\x7d\n\n"))

/-- Two items of one name. -/
def duplicateDeclaration : Sample :=
  ofItems "duplicate_declaration" [mutable "count" int none, struct "count" [("n", int)]] (.failure "E0101")

/-- Two members of one name. -/
def duplicateMember : Sample :=
  ofItems "duplicate_member" [struct "Pair" [("a", int), ("a", prim .f32)]] (.failure "E0102")

/-- A type that nothing declares. -/
def unknownType : Sample := ofItems "unknown_type" [mutable "p" (named "Missing") none] (.failure "E0103")

/-- A variable where a type must stand. -/
def variableAsType : Sample :=
  ofItems "variable_as_type" [mutable "width" int (some (intLit 80)), struct "Screen" [("w", named "width")]]
    (.failure "E0104")

/-- Two structs that contain each other. -/
def mutualCycle : Sample :=
  ofItems "mutual_cycle" [struct "Even" [("next", named "Odd")], struct "Odd" [("next", named "Even")]]
    (.failure "E0105")

/-- A sum. -/
def sumType : Sample :=
  ofItems "sum_type" [Node.declare "Shape" (.sum (slots [("Circle", some (prim .f64)), ("Empty", none)]))]
    (.failure "E0106")

/-- A for-each loop. -/
def forEach : Sample :=
  ofItems "for_each"
    [function "print_all" [("xs", .array int .nowhere)] (prim .void)
      [.forEach (Node.name "x") (ref "xs")
        (block [.statement (.expr (.call (ref "print") [ref "x"] .nowhere))]) .nowhere]]
    (.failure "E0201")

/-- A match. -/
def matchScope : Sample :=
  ofItems "match_scope"
    [function "area" [("kind", int)] int
      [.matching (ref "kind")
          [⟨Node.name "Square", [returning (intLit 4)], .nowhere⟩, ⟨Node.name "Point", [], .nowhere⟩] .nowhere,
        returning (intLit 0)]]
    (.failure "E0201")

/-- All samples, in the order of the self-test. -/
def all : List Sample :=
  [mutableInt, structPoint, selfReference, blockStatements, inferredFunction, linkedList, unionAndEnum, collatz,
    linearSearch, arraysAndCasts, duplicateDeclaration, duplicateMember, unknownType, variableAsType, mutualCycle,
    sumType, forEach, matchScope]

/-- The sample of a name. -/
def find? (name : String) : Option Sample := all.find? fun sample => sample.name == name

end Sample

end DeclTree
