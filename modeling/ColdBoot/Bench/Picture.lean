import ColdBoot.Bench.Digest

/-! # Pictures in short

A list of pixels is summed up by its digest and by its **runs**: equal values that follow one
another, with their number. -/

namespace ColdBoot.Picture

/-- Values and how often each follows itself, in order. -/
def runs (values : Array UInt16) : Array (UInt16 × Nat) :=
  values.foldl (fun found value =>
    match found.back? with
    | some (last, _) =>
        if last = value then
          found.modify (found.size - 1) fun (last, count) => (last, count + 1)
        else found.push (value, 1)
    | none => found.push (value, 1)) #[]

/-- A rectangle of pixels, ends included, and the first of the pixels it was put around. -/
structure Box where
  left : Nat
  top : Nat
  right : Nat
  bottom : Nat
  value : UInt16
  deriving DecidableEq, Repr

/-- The smallest box that holds one more pixel. -/
def Box.extend (box : Box) (x y : Nat) : Box :=
  { box with
    left := min box.left x
    top := min box.top y
    right := max box.right x
    bottom := max box.bottom y }

/-- The box around all pixels whose value is not in `ground`, for rows of `width` pixels. -/
def box? (width : Nat) (ground : List UInt16) (values : Array UInt16) : Option Box :=
  (values.foldl (fun (found, i) value =>
    if ground.contains value then (found, i + 1)
    else
      let x := i % width
      let y := i / width
      match found with
      | some box => (some (box.extend x y), i + 1)
      | none => (some ⟨x, y, x, y, value⟩, i + 1)) ((none : Option Box), 0)).1

end ColdBoot.Picture
