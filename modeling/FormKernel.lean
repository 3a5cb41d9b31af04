import FormKernel.Binding.Description
import FormKernel.Code.Description
import FormKernel.Integral.Dump
import FormKernel.Integral.Picture
import FormKernel.Kernel.Reading
import FormKernel.Kernel.Sharing
import FormKernel.Main
import FormKernel.Proofs.CText.Initializer
import FormKernel.Proofs.CText.ReadBack
import FormKernel.Proofs.Compiler.FormTables
import FormKernel.Proofs.Compiler.Points
import FormKernel.Proofs.Factor.Dependencies
import FormKernel.Proofs.Factor.Choices
import FormKernel.Proofs.Integral.Blocks
import FormKernel.Proofs.Integral.Factors
import FormKernel.Proofs.Integral.Geometry
import FormKernel.Proofs.Integral.Scopes
import FormKernel.Proofs.Integral.Sides
import FormKernel.Proofs.Integral.VariableNames
import FormKernel.Proofs.Kernel.Hoist
import FormKernel.Proofs.Kernel.SumFusion
import FormKernel.Proofs.Kernel.Widening
import FormKernel.Proofs.Modules.Protocol
import FormKernel.Proofs.Scalar.Places
import FormKernel.Table.Dump
