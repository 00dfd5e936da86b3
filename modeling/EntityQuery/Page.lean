/-!
Pages of an ordered result. Page numbers and sizes are 64-bit words; the offset of a page saturates
there, as does the number of the page after the last one.
-/

namespace EntityQuery

/-- The largest page number and size. -/
def maxIndex : Nat :=
  UInt64.size - 1

/-- The number of a page, from zero, and the size of pages. -/
structure PageRequest where
  page : UInt64
  size : UInt64
  deriving DecidableEq

namespace PageRequest

/-- One page of everything. -/
def unpaged : PageRequest :=
  ⟨0, 0xFFFFFFFFFFFFFFFF⟩

/-- How many results come before the page. -/
def offset (r : PageRequest) : Nat :=
  min (r.page.toNat * r.size.toNat) maxIndex

end PageRequest

/-- A page of a result. -/
structure Page (α : Type) where
  content : List α
  number : UInt64
  size : UInt64
  /-- The length of the whole result. -/
  total : Nat

namespace Page

variable {α β : Type}

/-- The page of a whole result. -/
def slice (all : List α) (r : PageRequest) : Page α :=
  ⟨(all.drop r.offset).take r.size.toNat, r.page, r.size, all.length⟩

/-- How many pages the result has; none of size zero. -/
def totalPages (p : Page α) : Nat :=
  if p.size.toNat = 0 then 0 else (p.total + p.size.toNat - 1) / p.size.toNat

/-- Whether no page comes after this one. -/
def isLast (p : Page α) : Bool :=
  p.totalPages ≤ min (p.number.toNat + 1) maxIndex

/-- The page with its content replaced item by item. -/
def map (f : α → β) (p : Page α) : Page β :=
  ⟨p.content.map f, p.number, p.size, p.total⟩

end Page

end EntityQuery
