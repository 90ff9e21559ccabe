import Mathlib.Algebra.GroupWithZero.Nat
import Mathlib.Tactic.Common

/-!
# Random source and catalog of the order history

The random source is a parameter: what it draws, and the arithmetic of its floats, is
not looked into. Prices of the catalog are in cents.
-/

namespace EcommerceIntegration.BulkLoad

set_option autoImplicit false

/-- `random.Random` over the states `G`, with floats in `F`. -/
structure Random (G F : Type) where
  seed : Nat → G
  randbelow : (n : Nat) → 0 < n → StateM G (Fin n)
  uniform : F → F → StateM G F
  /-- the index that `choices` draws with these weights -/
  weighted : (weights : List Nat) → 0 < weights.length → StateM G (Fin weights.length)
  ofCents : Nat → F
  /-- `round(x, 2)` -/
  round2 : F → F
  /-- `unit_price * quantity + freight` -/
  total : F → Nat → F → F

namespace Random
variable {G F α : Type} (rng : Random G F)

def randint (lo hi : Nat) : StateM G Nat := do
  let i ← rng.randbelow (hi - lo + 1) (Nat.succ_pos _)
  return lo + i

def choice (seq : List α) (h : 0 < seq.length) : StateM G α := do
  let i ← rng.randbelow seq.length h
  return seq.get i

/-- `choices(population, weights=weights)[0]`. -/
def choices (population : List α) (weights : List Nat) (h : 0 < weights.length)
    (heq : weights.length = population.length) : StateM G α := do
  let i ← rng.weighted weights h
  return population.get (i.cast heq)

end Random

/-- `n` draws, one after the other. -/
def drawMany {G α : Type} (draw : StateM G α) : (n : Nat) → StateM G {l : List α // l.length = n}
  | 0 => return ⟨[], rfl⟩
  | n + 1 => do
    let a ← draw
    let rest ← drawMany draw n
    return ⟨a :: rest.1, congrArg (· + 1) rest.2⟩

structure Product where
  sku : String
  name : String
  category : String
  minPrice : Nat
  maxPrice : Nat

def products : List Product :=
  [⟨"SKU-AF-4000", "Air Fryer Digital 4L", "Eletroportateis", 32990, 54990⟩,
    ⟨"SKU-AF-8000", "Air Fryer Familia 8L", "Eletroportateis", 49990, 79990⟩,
    ⟨"SKU-LQ-1200", "Liquidificador 1200W 12 Vel.", "Eletroportateis", 14990, 28990⟩,
    ⟨"SKU-LQ-0800", "Liquidificador Compacto 800W", "Eletroportateis", 9990, 17990⟩,
    ⟨"SKU-BT-0500", "Batedeira Planetaria 500W", "Eletroportateis", 27990, 45990⟩,
    ⟨"SKU-CF-0750", "Cafeteira Eletrica 30 Xicaras", "Eletroportateis", 12990, 24990⟩,
    ⟨"SKU-SD-0750", "Sanduicheira Grill Antiaderente", "Eletroportateis", 8990, 15990⟩,
    ⟨"SKU-PE-0900", "Panela Eletrica de Arroz 1.8L", "Eletroportateis", 16990, 27990⟩,
    ⟨"SKU-VT-0040", "Ventilador de Coluna 40cm", "Ventilacao", 19990, 34990⟩,
    ⟨"SKU-VT-0030", "Ventilador de Mesa 30cm", "Ventilacao", 11990, 19990⟩,
    ⟨"SKU-CR-0220", "Circulador de Ar 6 Pas", "Ventilacao", 17990, 29990⟩,
    ⟨"SKU-PA-0220", "Purificador de Agua Refrigerado", "Agua", 64990, 109990⟩,
    ⟨"SKU-FE-0900", "Ferro a Vapor Ceramico", "Cuidado com a Roupa", 8990, 17990⟩,
    ⟨"SKU-AS-1400", "Aspirador de Po 1400W", "Limpeza", 24990, 42990⟩,
    ⟨"SKU-MO-0020", "Micro-ondas 20L Espelhado", "Linha Branca", 59990, 89990⟩,
    ⟨"SKU-FG-0004", "Fogao 4 Bocas Inox", "Linha Branca", 89990, 149990⟩,
    ⟨"SKU-CK-0005", "Cooktop 5 Bocas Vidro Temperado", "Linha Branca", 74990, 119990⟩,
    ⟨"SKU-FR-0300", "Frigobar 120L", "Linha Branca", 109990, 169990⟩]

def channels : List String := ["SITE", "MARKETPLACE", "APP", "TELEVENDAS", "B2B"]

def paymentMethods : List String := ["PIX", "CREDIT_CARD", "BOLETO"]

def orderStatuses : List String := ["APPROVED", "INVOICED", "CANCELLED", "PENDING"]

/-- State, city and the prefix of its zip codes. -/
def locations : List (String × String × String) :=
  [("SP", "Sao Paulo", "01"), ("SP", "Campinas", "13"), ("SP", "Santo Andre", "09"),
    ("RJ", "Rio de Janeiro", "20"), ("RJ", "Niteroi", "24"),
    ("MG", "Belo Horizonte", "30"), ("MG", "Uberlandia", "38"),
    ("PR", "Curitiba", "80"), ("PR", "Londrina", "86"),
    ("SC", "Joinville", "89"), ("SC", "Florianopolis", "88"),
    ("RS", "Porto Alegre", "90"), ("BA", "Salvador", "40"),
    ("PE", "Recife", "50"), ("CE", "Fortaleza", "60"),
    ("GO", "Goiania", "74"), ("DF", "Brasilia", "70"),
    ("ES", "Vitoria", "29"), ("PA", "Belem", "66"), ("AM", "Manaus", "69")]

/-- The next check digit of a CPF. -/
def checkDigit (numbers : List Nat) : Nat :=
  let weight := numbers.length + 1
  let total := (numbers.zipIdx.map fun (n, i) => n * (weight - i)).sum
  let remainder := (total * 10) % 11
  if remainder = 10 then 0 else remainder

def generateCpf {G F : Type} (rng : Random G F) : StateM G String := do
  let digits ← drawMany (rng.randint 0 9) 9
  let base := digits.1 ++ [checkDigit digits.1]
  return String.join ((base ++ [checkDigit base]).map toString)

end EcommerceIntegration.BulkLoad
