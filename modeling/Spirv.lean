import Spirv.Listing
import Spirv.Program.Equality
import Spirv.Proofs.Capability
import Spirv.Proofs.Mask
import Spirv.Proofs.Decoding.Operand
import Spirv.Proofs.Decoding.Reading
import Spirv.Proofs.Decoding.Filling
import Spirv.Proofs.Decoding.Instruction
import Spirv.Proofs.Decoding.ReadingInstruction
import Spirv.Proofs.Decoding.Module
import Spirv.Proofs.Decoding.Tiling
import Spirv.Proofs.Decoding.Quiet
import Spirv.Proofs.Decoding.Sentence
import Spirv.Proofs.Encoding.Statement
import Spirv.Proofs.Encoding.Symbols
import Spirv.Proofs.Encoding.Declared
import Spirv.Proofs.Encoding.Denotation
import Spirv.Proofs.Encoding.Filling
import Spirv.Proofs.Encoding.Simulation
import Spirv.Proofs.Encoding.Module
import Spirv.Proofs.Encoding.NumberWords
import Spirv.Proofs.Encoding.Bound
import Spirv.Proofs.Encoding.NumericNames
import Spirv.Proofs.Encoding.Spelling
import Spirv.Proofs.Encoding.Lockstep
import Spirv.Proofs.Encoding.Forms
import Spirv.Proofs.Encoding.Spacing
import Spirv.Proofs.Encoding.Renaming
import Spirv.Proofs.Encoding.Places
import Spirv.Proofs.Encoding.Causality
import Spirv.Proofs.Encoding.Parts
import Spirv.Proofs.Encoding.ResultPrefix
import Spirv.Proofs.Encoding.Framing
import Spirv.Proofs.Encoding.Pairs
import Spirv.Proofs.Encoding.Imports
import Spirv.Proofs.Encoding.ExtendedNames
import Spirv.Proofs.Encoding.SymbolCalls
import Spirv.Proofs.Text.Words
import Spirv.Proofs.Text.Quoted
import Spirv.Proofs.Text.Scanning
import Spirv.Proofs.Text.Walk
import Spirv.Proofs.Number.Digits
import Spirv.Proofs.Number.Rounding
import Spirv.Proofs.Number.Shortest
import Spirv.Proofs.Number.Decimal
import Spirv.Proofs.Listing.Names
import Spirv.Proofs.Listing.Number
import Spirv.Proofs.Listing.Words
import Spirv.Proofs.Listing.Operand
import Spirv.Proofs.Listing.Line
import Spirv.Proofs.Listing.Encoding
import Spirv.Proofs.Listing.Module
import Spirv.Proofs.Program.Reading
import Spirv.Proofs.Program.Regions
import Spirv.Proofs.Program.Placement
import Spirv.Proofs.Program.StructuralEquality
import Spirv.Proofs.Decoding.Identity
import Spirv.Proofs.Decoding.Dependence
import Spirv.Proofs.Decoding.Causality
import Spirv.Proofs.Decoding.Extent
import Spirv.Proofs.Decoding.Handover
import Spirv.Proofs.Decoding.Stages
import Spirv.Proofs.Decoding.RequiredFirst
import Spirv.Proofs.Encoding.RequiredFirst
import Spirv.Proofs.Number.Numeral
import Spirv.Proofs.Number.TypedInteger
import Spirv.Proofs.Number.Untyped
import Spirv.Proofs.Decoding.ByteOrder
import Spirv.Proofs.Listing.Quotation
import Spirv.Proofs.Encoding.RawText
import Spirv.Proofs.Encoding.Masks
