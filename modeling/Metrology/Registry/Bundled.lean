import Metrology.Registry.Build

/-!
The bundled registry: the seven base dimensions, common derived ones and their SI and everyday
units.
-/

namespace Metrology.Registry.Bundled

variable {α : Type} [Scalar α]

def exponents (entries : List Int) : List α := entries.map Scalar.ofInt

def primary : List (DimensionDefinition α) := [
  ⟨"mass", "mass", "M", exponents [1, 0, 0, 0, 0, 0, 0],
    [
      ⟨"kilogram", "kilogram", "kg", 1, 3⟩,
      ⟨"gram", "gram", "g", 1e-3, 0⟩,
      ⟨"dalton", "dalton", "Da", 1.6605390666e-27, 0⟩,
      ⟨"electron_mass", "atomic unit of mass (a.u.)", "m_e", 9.1093837015e-31, 0⟩]⟩,
  ⟨"length", "length", "L", exponents [0, 1, 0, 0, 0, 0, 0],
    [
      ⟨"metre", "metre", "m", 1, 0⟩,
      ⟨"angstrom", "angstrom", "Å", 1e-10, 0⟩,
      ⟨"bohr", "bohr radius (a.u.)", "a0", 5.29177210903e-11, 0⟩]⟩,
  ⟨"time", "time", "T", exponents [0, 0, 1, 0, 0, 0, 0],
    [
      ⟨"second", "second", "s", 1, 0⟩]⟩,
  ⟨"electric_current", "electric current", "I", exponents [0, 0, 0, 1, 0, 0, 0],
    [
      ⟨"ampere", "ampere", "A", 1, 0⟩]⟩,
  ⟨"temperature", "temperature", "Θ", exponents [0, 0, 0, 0, 1, 0, 0],
    [
      ⟨"kelvin", "kelvin", "K", 0, 0⟩,
      ⟨"celsius", "degree Celsius", "°C", 273.15, 0⟩]⟩,
  ⟨"amount_of_substance", "amount of substance", "N", exponents [0, 0, 0, 0, 0, 1, 0],
    [
      ⟨"mole", "mole", "mol", 1, 0⟩]⟩,
  ⟨"luminous_intensity", "luminous intensity", "J", exponents [0, 0, 0, 0, 0, 0, 1],
    [
      ⟨"candela", "candela", "cd", 1, 0⟩]⟩]

def derived : List (DimensionDefinition α) := [
  ⟨"dimensionless", "dimensionless", "1", exponents [0, 0, 0, 0, 0, 0, 0],
    [
      ⟨"radian", "radian", "rad", 1, 0⟩,
      ⟨"degree", "degree", "deg", 1.74533e-2, 0⟩]⟩,
  ⟨"area", "area", "Ar", exponents [0, 2, 0, 0, 0, 0, 0],
    [
      ⟨"square_metre", "square metre", "m^2", 1, 0⟩]⟩,
  ⟨"volume", "volume", "Vol", exponents [0, 3, 0, 0, 0, 0, 0],
    [
      ⟨"cubic_metre", "cubic metre", "m^3", 1, 0⟩]⟩,
  ⟨"frequency", "frequency", "ν", exponents [0, 0, -1, 0, 0, 0, 0],
    [
      ⟨"hertz", "hertz", "Hz", 1, 0⟩]⟩,
  ⟨"density", "density", "ρ", exponents [1, -3, 0, 0, 0, 0, 0],
    [
      ⟨"kilogram_per_cubic_metre", "kilogram per cubic metre", "kg.m^-3", 1, 0⟩]⟩,
  ⟨"pressure", "pressure", "P", exponents [1, -1, -2, 0, 0, 0, 0],
    [
      ⟨"pascal", "pascal", "Pa", 1, 0⟩]⟩,
  ⟨"electric_charge", "electric charge", "Q", exponents [0, 0, 1, 1, 0, 0, 0],
    [
      ⟨"coulomb", "coulomb", "C", 1, 0⟩,
      ⟨"elementary_charge", "atomic unit of charge (a.u.)", "e", 1.602176634e-19, 0⟩]⟩,
  ⟨"velocity", "velocity", "V", exponents [0, 1, -1, 0, 0, 0, 0],
    [
      ⟨"metre_per_second", "metre per second", "m.s^-1", 1, 0⟩]⟩,
  ⟨"momentum", "momentum", "Mom", exponents [1, 1, -1, 0, 0, 0, 0],
    [
      ⟨"kilogram_metre_per_second", "kilogram metre per second", "kg.m.s^-1", 1, 0⟩]⟩,
  ⟨"acceleration", "acceleration", "A", exponents [0, 1, -2, 0, 0, 0, 0],
    [
      ⟨"metre_per_square_second", "metre per second squared", "m.s^-2", 1, 0⟩]⟩,
  ⟨"force", "force", "F", exponents [1, 1, -2, 0, 0, 0, 0],
    [
      ⟨"newton", "newton", "N", 1, 0⟩]⟩,
  ⟨"energy", "energy", "E", exponents [1, 2, -2, 0, 0, 0, 0],
    [
      ⟨"joule", "joule", "J", 1, 0⟩,
      ⟨"kilocalorie", "kilocalorie", "kcal", 4184.0, 3⟩,
      ⟨"electronvolt", "electronvolt", "eV", 1.602176634e-19, 0⟩,
      ⟨"hartree", "hartree (a.u.)", "E_h", 4.3597447222071e-18, 0⟩]⟩]

def prefixes : List MetricPrefix := [
  ⟨"yotta", "yotta", "Y", 24⟩,
  ⟨"zetta", "zetta", "Z", 21⟩,
  ⟨"exa", "exa", "E", 18⟩,
  ⟨"peta", "peta", "P", 15⟩,
  ⟨"tera", "tera", "T", 12⟩,
  ⟨"giga", "giga", "G", 9⟩,
  ⟨"mega", "mega", "M", 6⟩,
  ⟨"kilo", "kilo", "k", 3⟩,
  ⟨"hecto", "hecto", "h", 2⟩,
  ⟨"deca", "deca", "da", 1⟩,
  ⟨"deci", "deci", "d", -1⟩,
  ⟨"centi", "centi", "c", -2⟩,
  ⟨"milli", "milli", "m", -3⟩,
  ⟨"micro", "micro", "μ", -6⟩,
  ⟨"nano", "nano", "n", -9⟩,
  ⟨"pico", "pico", "p", -12⟩,
  ⟨"femto", "femto", "f", -15⟩,
  ⟨"atto", "atto", "a", -18⟩,
  ⟨"zepto", "zepto", "z", -21⟩,
  ⟨"yocto", "yocto", "y", -24⟩]

def prefixedUnits : List PrefixRule := [
  ⟨"length", "metre",
    ["centi", "milli", "micro", "nano", "pico", "femto", "atto"]⟩,
  ⟨"time", "second",
    ["centi", "milli", "micro", "nano", "pico", "femto", "atto"]⟩]

def constants : List (Constant α) := [
  ⟨"avogadro", "Avogadro constant", "N_A", 6.02214076e23, "mol^-1"⟩,
  ⟨"coulomb", "Coulomb constant", "k_e", 8.9875517923e9, "N.m^2.C^-2"⟩]

def data : RegistryData α := ⟨primary, derived, prefixes, prefixedUnits, constants⟩

def document : Datum α := data.toDatum

end Metrology.Registry.Bundled
