import DistributionOperator.Distribution.Schema
import DistributionOperator.Yaml.Printer

/-! The command line: prints the definition of distributions, to be applied to a cluster. -/

def main : IO Unit :=
  IO.print (DistributionOperator.Yaml.text DistributionOperator.Schema.definition)
