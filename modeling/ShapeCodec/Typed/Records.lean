import ShapeCodec.Typed
/-! Records of a small book catalogue. Each has the non-null shape of its name, and its fields in
order of declaration. -/
namespace ShapeCodec.Catalogue

structure Empty where
  deriving DecidableEq

structure Person where
  name : Option String
  age : Int64
  county : Option String
  deriving DecidableEq

structure Chapter where
  name : Option String
  pageBegin : Int64
  pageEnd : Int64
  deriving DecidableEq

structure Book where
  title : Option String
  authors : Option (List Person)
  chapters : Option (List Chapter)
  totalPageCount : Int64
  price : Int64
  deriving DecidableEq

open HasShape RecordReader

instance : HasShape Empty where
  shape := .object "Empty" false
  toValue _ := .record "Empty" []
  ofValue := RecordReader.read "Empty" (pure ⟨⟩)

instance : HasShape Person where
  shape := .object "Person" false
  toValue p := .record "Person" [toValue p.name, toValue p.age, toValue p.county]
  ofValue := RecordReader.read "Person" do pure ⟨← next, ← next, ← next⟩

instance : HasShape Chapter where
  shape := .object "Chapter" false
  toValue c := .record "Chapter" [toValue c.name, toValue c.pageBegin, toValue c.pageEnd]
  ofValue := RecordReader.read "Chapter" do pure ⟨← next, ← next, ← next⟩

instance : HasShape Book where
  shape := .object "Book" false
  toValue b := .record "Book"
    [toValue b.title, toValue b.authors, toValue b.chapters, toValue b.totalPageCount,
      toValue b.price]
  ofValue := RecordReader.read "Book" do pure ⟨← next, ← next, ← next, ← next, ← next⟩

end ShapeCodec.Catalogue
