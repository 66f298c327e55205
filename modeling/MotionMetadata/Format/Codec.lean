import MotionMetadata.Codec.FieldSet
import MotionMetadata.Codec.IdPack
import MotionMetadata.Codec.Series

/-!
# The codec of a format

Formats name the sets inside them, and sets may contain themselves. What bounds the nesting
is a number of levels that counts down on the way in: a codec for so many levels is made from
codecs for one level less, and one for no levels refuses whatever nests.
-/

namespace MotionMetadata

/-- The codec of a format, given the codecs one level further in if there are any. -/
def Format.layer (registry : Registry) (inner : Option (Format → Codec)) (f : Format) : Codec :=
  match f with
  | .plain p => p.codec
  | .series element => .series f.description (inner.map (· element))
  | .localSet standard _ => .localSet f.description (registry.table standard) inner
  | .universalSet standard => .universalSet f.description (registry.table standard) inner
  | .idPack pack =>
    let set := Format.localSet pack.standard none
    .idPack f.description (inner.map (· set))
      (.localSet set.description (registry.table pack.standard) inner)

/-- The codec of a format with `levels` levels left for nesting. -/
def Format.codec (registry : Registry) : (levels : Nat) → Format → Codec
  | 0 => Format.layer registry none
  | levels + 1 => Format.layer registry (some (codec registry levels))

/-- The codecs one level further in, if any of the levels is left. -/
def Format.inward (registry : Registry) : (levels : Nat) → Option (Format → Codec)
  | 0 => none
  | levels + 1 => some (Format.codec registry levels)

/-- The codec of a format at the top, where all levels are left. -/
def Format.outermost (registry : Registry) (f : Format) : Codec := f.codec registry maxDepth

end MotionMetadata
